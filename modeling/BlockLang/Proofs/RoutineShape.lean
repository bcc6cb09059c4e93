import BlockLang.Proofs.Loading
import BlockLang.Proofs.StackFrames

namespace BlockLang

open Source Code Lowering

namespace Routine

variable (At : Frame → List NodeId → Prop) (r : Routine) (path : List NodeId)

structure Shaped : Prop where
  frame : At r.frame path
  code : ∃ init v, r.code.toList = init ++ [.move (.mem (.name .framePointer)) v] ∧ v.isCall = false ∧
    Obeys (Cell At path) (fun n l args => ∃ g outer, CallSite At path r.frame n l args g outer)
      r.code.toList init
  once : ∀ t x y, .move (.temp t) x ∈ r.code.toList → .move (.temp t) y ∈ r.code.toList → x = y
  targets : ∀ (l : Label) (pc : Nat), r.targets[l]? = some pc → r.code[pc]? = some (.label l)

inductive Place (pc : Nat) : Stm → Prop where
  | plain {s : Stm} (h : Plain (Cell At path) r.code.toList s) (hn : pc + 1 < r.code.size) : Place pc s
  | save {n : Int} {l : Label} {args : List Exp} {g : Frame} {outer : List NodeId} {t : Temp}
    (h : CallSite At path r.frame n l args g outer)
    (hn : r.code[pc + 1]? = some (.move (.temp t) (.call l args))) : Place pc (saveFp n)
  | call {n : Int} {l : Label} {args : List Exp} {g : Frame} {outer : List NodeId} {t : Temp} {k : Nat}
    (h : CallSite At path r.frame n l args g outer) (hk : pc = k + 1)
    (hs : r.code[k]? = some (saveFp n)) (hn : pc + 1 < r.code.size) :
    Place pc (.move (.temp t) (.call l args))
  | last {v : Exp} (hv : v.isCall = false) (hn : pc + 1 = r.code.size) :
    Place pc (.move (.mem (.name .framePointer)) v)

variable {At r path} {s : Stm} {pc : Nat}

lemma Shaped.place (h : r.Shaped At path) (hs : r.code[pc]? = some s) : r.Place At path pc s := by
  obtain ⟨init, v, hcode, hv, hobeys⟩ := h.code
  have hsize : r.code.size = init.length + 1 := by
    rw [← Array.length_toList, hcode, List.length_append, List.length_singleton]
  have hget : ∀ i : Nat, r.code[i]? = (init ++ [.move (.mem (.name .framePointer)) v])[i]? := by
    intro i
    rw [← hcode, Array.getElem?_toList]
  have hinit : ∀ {i : Nat} {s : Stm}, init[i]? = some s → r.code[i]? = some s := by
    intro i s hi
    rw [hget, List.getElem?_append_left (List.getElem?_eq_some_iff.mp hi).1, hi]
  rcases Nat.lt_or_ge pc init.length with hlt | hge
  · rw [hget, List.getElem?_append_left hlt] at hs
    rcases hobeys.at hs with hp | ⟨n, t, l, args, ⟨g, outer, hsite⟩, rfl, hnext⟩ |
      ⟨k, n, t, l, args, rfl, ⟨g, outer, hsite⟩, hbefore, rfl⟩
    · exact .plain hp (by omega)
    · exact .save hsite (hinit hnext)
    · exact .call hsite rfl (hinit hbefore) (by omega)
  · rw [hget, List.getElem?_append_right hge, List.getElem?_singleton] at hs
    split at hs
    · obtain rfl := Option.some.inj hs
      exact .last hv (by omega)
    · cases hs

end Routine

lemma Cell.isPure {At : Frame → List NodeId → Prop} {path : List NodeId} {a : Exp}
    (h : Cell At path a) : a.isPure = true := by
  cases h with
  | global hf hs => rfl
  | frame hg hs hc => exact isPure_offset (isPure_staticLink _) _

lemma Cell.ne_sub {At : Frame → List NodeId → Prop} {path : List NodeId} {a x y : Exp}
    (h : Cell At path a) : a ≠ .binop .sub x y := by
  cases h with
  | global hf hs => exact Exp.noConfusion
  | @frame g outer offset hg hs hc =>
    unfold Exp.offset
    split
    · cases path.length - outer.length with
      | zero => exact Exp.noConfusion
      | succ k => exact Exp.noConfusion
    · intro he
      cases (Exp.binop.inj he).1

lemma not_plain_saveFp {At : Frame → List NodeId → Prop} {path : List NodeId} {known : List Stm}
    {n : Int} : ¬Plain (Cell At path) known (saveFp n) := by
  intro h
  generalize hs : saveFp n = s at h
  cases h with
  | cell ha hx => exact ha.ne_sub (Exp.mem.inj (Stm.move.inj hs).1).symm
  | _ => cases hs

lemma Routine.Shaped.call_of_saveFp {At : Frame → List NodeId → Prop} {r : Routine}
    {path : List NodeId} (h : r.Shaped At path) {k : Nat} {n : Int} {s : Stm}
    (hs : r.code[k]? = some (saveFp n)) (hn : r.code[k + 1]? = some s) :
    ∃ t l args, s = .move (.temp t) (.call l args) := by
  have hplace := h.place hs
  generalize hsave : saveFp n = s' at hplace
  cases hplace with
  | plain hp => exact (not_plain_saveFp (hsave ▸ hp)).elim
  | @save n l args g outer t _ hc => exact ⟨t, l, args, Option.some.inj (hn.symm.trans hc)⟩
  | call => cases hsave
  | last => cases hsave

namespace Memory

lemma Static.write {m : Memory} {size : Int} (h : m.Static size) (a : Int) (bytes : List UInt8) :
    (m.write a bytes).Static size :=
  ⟨(size_write m a bytes).trans h.size_eq, h.start, h.word⟩

end Memory

namespace Source.Program.Compiles

variable {p : Program} {entry : String} {code : Code.Program} {layout : Layout} {st : State}
variable {setup : Setup} {image : Image} {m : Machine}

lemma entry_frame (h : p.Compiles entry code layout st) (hr : p.Regular)
    (hl : Image.load code setup = .ok (image, m)) {r : Routine}
    (he : image.routines[image.entry]? = some r) : ∃ i, p.FrameAt layout r.frame [i] := by
  obtain ⟨_, -, hentry, -⟩ := Image.load_ok.mp hl
  obtain ⟨d, frame, hd, hf, hlabel⟩ := h.entry
  obtain ⟨n, ps, t, b, rfl, -, ho⟩ := entryDef_mem hd
  have htop : p.FrameAt layout frame [n.id] := ⟨[], n, entry, ps, t, b, rfl, ho, hf⟩
  obtain ⟨outer, n', x, ps', t', b', _, _, _, ho', hf', hlabel', -⟩ := h.routine_origin hl he
  have hframe : p.FrameAt layout r.frame (n'.id :: outer) :=
    ⟨outer, n', x, ps', t', b', rfl, ho', hf'⟩
  obtain ⟨rfl, -⟩ := hr.eq_of_label h.layout_eq hframe htop (hlabel'.trans (hentry.trans hlabel))
  exact ⟨n.id, htop⟩

lemma shaped (h : p.Compiles entry code layout st) (hr : p.Regular)
    (hs : code.statements.length ≤ UInt32.size) (hl : Image.load code setup = .ok (image, m))
    {l : Label} {r : Routine} (hget : image.routines[l]? = some r) :
    r.frame.label = l ∧ ∃ path, r.Shaped (p.FrameAt layout) path := by
  obtain ⟨outer, n, x, ps, t, b, fragment, st₁, st₂, ho, hf, hlabel, hrun, hm, hcode, htargets⟩ :=
    h.routine_origin hl hget
  obtain ⟨f, hf', hframed⟩ := hr.framed h.layout_eq ho
  obtain rfl := Option.some.inj (hf.symm.trans hf')
  have hobeys := expr_obeys b (hr.confined h.layout_eq ho hf) hrun
  refine ⟨hlabel, n.id :: outer, ⟨outer, n, x, ps, t, b, rfl, ho, hf⟩, ?_, fun t x y hx hy => ?_,
    fun l pc hpc => ?_⟩
  · rw [hcode]
    exact obeys_returning hobeys st₂.nextTemp
  · exact h.eq_of_setting hr.not_isIndex hs hm hx hy
  · rw [htargets] at hpc
    rw [← Array.getElem?_toList]
    exact Routine.label_of_targetsOf hpc

end Source.Program.Compiles

end BlockLang
