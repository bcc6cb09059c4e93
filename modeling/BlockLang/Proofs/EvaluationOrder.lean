import BlockLang.Proofs.LinearCode

namespace BlockLang.Code

inductive Event where
  | label (l : Label)
  | jump (l : Label)
  | branch (positive negative : Label)
  | call (f : Label) (args : Nat)
deriving DecidableEq

mutual

def Exp.events : Exp → List Event
  | .const _ | .name _ | .temp _ => []
  | .mem a => a.events
  | .binop _ a b => a.events ++ b.events
  | .call f args => Exp.eventsAll args ++ [.call f args.length]
  | .eseq s e => s.events ++ e.events

def Exp.eventsAll : List Exp → List Event
  | [] => []
  | x :: xs => x.events ++ Exp.eventsAll xs

def Stm.events : Stm → List Event
  | .move dst src => dst.events ++ src.events
  | .exp e => e.events
  | .seq ss => Stm.eventsAll ss
  | .cjump c l l' => c.events ++ [.branch l l']
  | .jump l => [.jump l]
  | .label l => [.label l]

def Stm.eventsAll : List Stm → List Event
  | [] => []
  | s :: ss => s.events ++ Stm.eventsAll ss

end

@[simp] lemma Stm.eventsAll_append (ss ts : List Stm) :
    Stm.eventsAll (ss ++ ts) = Stm.eventsAll ss ++ Stm.eventsAll ts := by
  induction ss with
  | nil => rfl
  | cons s ss ih => simp [Stm.eventsAll, ih]

@[simp] lemma Stm.eventsAll_singleton (s : Stm) : Stm.eventsAll [s] = s.events := by
  simp [Stm.eventsAll]

lemma Exp.events_of_isPure : ∀ {x : Exp}, x.isPure = true → x.events = []
  | .const _, _ | .name _, _ | .temp _, _ => rfl
  | .mem a, h => a.events_of_isPure h
  | .binop op a b, h => by
    obtain ⟨ha, hb⟩ := Bool.and_eq_true_iff.mp h
    simp [Exp.events, a.events_of_isPure ha, b.events_of_isPure hb]

lemma Exp.eventsAll_of_isPure {xs : List Exp} (h : xs.all Exp.isPure = true) :
    Exp.eventsAll xs = [] := by
  induction xs with
  | nil => rfl
  | cons x xs ih =>
    obtain ⟨hx, hxs⟩ := Bool.and_eq_true_iff.mp h
    simp [Exp.eventsAll, Exp.events_of_isPure hx, ih hxs]

lemma Exp.events_discard (x : Exp) : Stm.eventsAll x.discard = x.events := by
  cases x with
  | const w => rfl
  | name l => rfl
  | temp t => rfl
  | _ => exact Stm.eventsAll_singleton _

lemma Exp.length_splitAll (xs : List Exp) (n : Temp) :
    (Exp.splitAll xs n).value.length = xs.length := by
  induction xs with
  | nil => rfl
  | cons x xs ih => simp [Exp.splitAll_cons, Split.cons, ih]

namespace Split

def events (r : Split Exp) : List Event := Stm.eventsAll r.before ++ r.value.events

def Passes (es : List Event) (r : Split Exp) : Prop :=
  Stm.eventsAll r.before = es ∧ r.value.isPure = true

variable {r r' : Split Exp} {es es' : List Event}

lemma events_save (r : Split Exp) : r.save.events = r.events := by
  simp [events, save, Stm.events, Exp.events]

lemma Passes.events (h : r.Passes es) : r.events = es := by
  rw [Split.events, Exp.events_of_isPure h.2, List.append_nil, h.1]

lemma passes_of_events (h : r.events = es) (hv : r.value.isPure = true) : r.Passes es := by
  refine ⟨?_, hv⟩
  rw [← h, Split.events, Exp.events_of_isPure hv, List.append_nil]

lemma passes_save (h : r.events = es) : r.save.Passes es :=
  passes_of_events (r.events_save.trans h) rfl

lemma passes_saveCall (h : r.events = es) (hv : r.value.isPure = true ∨ r.value.isCall = true) :
    r.saveCall.Passes es := by
  rcases hv with hv | hv
  · rw [saveCall_of_isPure hv]
    exact passes_of_events h hv
  · rw [saveCall_of_isCall hv]
    exact passes_save h

lemma Passes.hold (h : r.Passes es) (effects : Bool) : (r.hold effects).Passes es :=
  -- the saved value is pure, so the new move adds no event
  r.hold_cases effects (passes_save h.events) h

lemma Passes.binop (h : r.Passes es) (h' : r'.Passes es') (op : Op) :
    (Split.binop op r r').Passes (es ++ es') := by
  simp [Passes, Split.binop, Exp.isPure, h.1, h.2, h'.1, h'.2]

lemma events_call (f : Label) {args : Split (List Exp)} (h : Stm.eventsAll args.before = es)
    (hv : args.value.all Exp.isPure = true) :
    (Split.call f args).events = es ++ [.call f args.value.length] := by
  simp [Split.call, events, Exp.events, h, Exp.eventsAll_of_isPure hv]

end Split

namespace Flat

variable {dst src : Split Exp} {es es' : List Event}

lemma eventsAll_ofSplit_move (src : Split Exp) {d : Exp} (hd : d.events = []) :
    Stm.eventsAll (Flat.ofSplit src (.move d)).code = src.events := by
  simp [Flat.ofSplit, Stm.events, Split.events, hd]

lemma eventsAll_move {place : Exp → Exp} (hd : dst.Passes es) (hs : src.Passes es')
    (hp : (place dst.value).events = dst.value.events) :
    Stm.eventsAll (Flat.move dst place src).code = es ++ es' := by
  simp [Flat.move, Stm.events, hp, hd.1, hs.1, Exp.events_of_isPure hd.2, Exp.events_of_isPure hs.2]

end Flat

lemma Exp.passes_saveCall {x : Exp} {n : Temp} (h : (x.split n).events = x.events) :
    (x.split n).saveCall.Passes x.events :=
  Split.passes_saveCall h (x.split_value_isPure_or_isCall n)

mutual

lemma Exp.events_split (x : Exp) (n : Temp) : (x.split n).events = x.events := by
  cases x with
  | const w => rfl
  | name l => rfl
  | temp t => rfl
  | mem a => exact (Exp.passes_saveCall (a.events_split n)).events
  | binop op a b =>
    have ha := Exp.passes_saveCall (a.events_split (b.split n).saveCall.next)
    have hb := Exp.passes_saveCall (b.events_split n)
    exact ((ha.hold _).binop hb op).events
  | call f args =>
    rw [Exp.split, Split.events_call f (Exp.eventsAll_splitAll args n)
      (Exp.splitAll_value_isPure args n), Exp.length_splitAll, Exp.events]
  | eseq s e =>
    have he := Exp.passes_saveCall (e.events_split (s.flat n).next)
    refine Split.Passes.events ⟨?_, he.2⟩
    rw [Exp.split, Stm.eventsAll_append, s.eventsAll_flat, he.1, Exp.events]

lemma Exp.eventsAll_splitAll (xs : List Exp) (n : Temp) :
    Stm.eventsAll (Exp.splitAll xs n).before = Exp.eventsAll xs := by
  cases xs with
  | nil => rfl
  | cons x xs =>
    have hx := (Exp.passes_saveCall (x.events_split (Exp.splitAll xs n).next)).hold
      (!xs.all Exp.isPure)
    rw [Exp.splitAll, Split.cons, Stm.eventsAll_append, hx.1, Exp.eventsAll_splitAll xs n,
      Exp.eventsAll]

lemma Exp.eventsAll_assign (d : Exp) {x : Exp} (effects : Bool) (n : Temp)
    (hx : ∀ n, (x.split n).events = x.events) :
    Stm.eventsAll (d.assign (fun m => x.split m) effects n).code = d.events ++ x.events := by
  have hsrc := Exp.passes_saveCall (hx n)
  cases d with
  | temp t => exact (Flat.eventsAll_ofSplit_move _ rfl).trans (hx n)
  | const w => exact (Flat.eventsAll_ofSplit_move _ rfl).trans hsrc.events
  | name l => exact (Flat.eventsAll_ofSplit_move _ rfl).trans hsrc.events
  | mem a =>
    have ha := Exp.passes_saveCall (a.events_split (x.split n).saveCall.next)
    exact Flat.eventsAll_move (ha.hold effects) hsrc rfl
  | eseq s d =>
    rw [Exp.assign, Flat.append, Stm.eventsAll_append, s.eventsAll_flat,
      d.eventsAll_assign effects _ hx, Exp.events, List.append_assoc]
  | binop op a b =>
    have hb := Exp.passes_saveCall (b.events_split (x.split n).saveCall.next)
    have ha := Exp.passes_saveCall (a.events_split (b.split (x.split n).saveCall.next).saveCall.next)
    exact Flat.eventsAll_move (((ha.hold _).binop hb op).hold effects) hsrc rfl
  | call f args =>
    have hc := Split.events_call f (Exp.eventsAll_splitAll args (x.split n).saveCall.next)
      (Exp.splitAll_value_isPure args _)
    rw [Exp.length_splitAll] at hc
    exact Flat.eventsAll_move ((Split.passes_save hc).hold effects) hsrc rfl

lemma Stm.eventsAll_flat (s : Stm) (n : Temp) : Stm.eventsAll (s.flat n).code = s.events := by
  cases s with
  | move d x => exact d.eventsAll_assign _ n fun m => x.events_split m
  | exp e =>
    rw [Stm.flat, Stm.eventsAll_append, Exp.events_discard]
    exact e.events_split n
  | seq ss => exact Stm.eventsAll_flatAll ss n
  | cjump c l l' =>
    have hc := Exp.passes_saveCall (c.events_split n)
    simp [Stm.flat, Flat.ofSplit, Stm.events, hc.1, Exp.events_of_isPure hc.2]
  | jump l => rfl
  | label l => rfl

lemma Stm.eventsAll_flatAll (ss : List Stm) (n : Temp) :
    Stm.eventsAll (Stm.flatAll ss n).code = Stm.eventsAll ss := by
  cases ss with
  | nil => rfl
  | cons s ss =>
    rw [Stm.flatAll, Flat.append, Stm.eventsAll_append, s.eventsAll_flat, Stm.eventsAll_flatAll ss,
      Stm.eventsAll]

end

def Stm.event? : Stm → Option Event
  | .label l => some (.label l)
  | .jump l => some (.jump l)
  | .cjump _ l l' => some (.branch l l')
  | .move _ (.call f args) => some (.call f args.length)
  | .exp (.call f args) => some (.call f args.length)
  | .move _ _ | .exp _ | .seq _ => none

lemma Stm.Canonical.events {s : Stm} (h : s.Canonical) : s.events = s.event?.toList := by
  cases h with
  | call t f h =>
    rw [Stm.events, Exp.events, Exp.events, Exp.eventsAll_of_isPure h]
    rfl
  | @move d x hd hx =>
    rw [Stm.events, Exp.events_of_isPure hd, Exp.events_of_isPure hx]
    cases x with
    | call f args => cases hx
    | _ => rfl
  | effect f h =>
    rw [Stm.events, Exp.events, Exp.eventsAll_of_isPure h]
    rfl
  | @exp x hx ha =>
    rw [Stm.events, Exp.events_of_isPure hx]
    cases x with
    | call f args => cases hx
    | _ => rfl
  | cjump hc l l' =>
    rw [Stm.events, Exp.events_of_isPure hc]
    rfl
  | jump l => rfl
  | label l => rfl

lemma eventsAll_of_canonical {code : List Stm} (h : ∀ s ∈ code, s.Canonical) :
    Stm.eventsAll code = code.filterMap Stm.event? := by
  induction code with
  | nil => rfl
  | cons s code ih =>
    obtain ⟨hs, hcode⟩ := List.forall_mem_cons.mp h
    rw [Stm.eventsAll, hs.events, ih hcode, List.filterMap_cons]
    cases s.event? <;> rfl

lemma Stm.filterMap_event?_flat (s : Stm) (n : Temp) :
    (s.flat n).code.filterMap Stm.event? = s.events := by
  rw [← eventsAll_of_canonical (s.canonical_flat n), s.eventsAll_flat]

/-- Linear code has the events of the tree, each as often as there and in the order in which the tree
is evaluated, and each one is a statement of its own. -/
theorem linearize_keeps_events (s : Stm) (n : Temp) :
    (s.linearize n).1.events = s.events ∧
      (s.linearize n).1.statements.filterMap Stm.event? = s.events :=
  ⟨s.eventsAll_flat n, s.filterMap_event?_flat n⟩

end BlockLang.Code
