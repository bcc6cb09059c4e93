import BlockLang.Proofs.CallingConvention
import BlockLang.Proofs.Simulation
import BlockLang.Source.Builder

namespace BlockLang

open Source Code Lowering

lemma length_of_evalAll {a : Activation} {m : Machine} {xs : List Exp} {ws : List Word}
    (h : a.evalAll m xs = .ok ws) : ws.length = xs.length := by
  induction xs generalizing ws with
  | nil =>
    obtain rfl := Except.ok.inj h
    rfl
  | cons x xs ih =>
    obtain ⟨w, ws', rfl, -, h⟩ := Sim.evalAll_cons_ok_iff.mp h
    rw [List.length_cons, ih h, List.length_cons]

lemma Routine.leave_cases {r : Routine} {m m' : Machine} {w : Word} (h : r.leave m = .ok w m') :
    ∃ v, m.memory.load (m.fp - r.frame.oldFp) = .ok v ∧ m' = { m with fp := v.toInt, sp := m.fp } := by
  obtain ⟨_, m₁, hsp, h⟩ := Exec.bind_ok.mp h
  obtain ⟨-, rfl⟩ := EStateM.Result.ok.inj hsp
  obtain ⟨v, m₂, hread, h⟩ := Exec.bind_ok.mp h
  obtain ⟨hv, rfl⟩ := Machine.read_ok_iff.mp hread
  obtain ⟨_, m₂, hfp, h⟩ := Exec.bind_ok.mp h
  obtain ⟨-, rfl⟩ := EStateM.Result.ok.inj hfp
  obtain ⟨-, rfl⟩ := Machine.read_ok_iff.mp h
  exact ⟨v, hv, rfl⟩

section Memory

variable {At : Frame → List NodeId → Prop} {top : Int} {m : Memory}

lemma Laid.enter {as : List Activation} {a : Activation} {ws : List Word} (h : Laid At top as m)
    (hs : Frame.Stacked (a.routine.frame :: frames as)) (h0 : 0 ≤ Frame.sp top (frames as))
    (hws : 8 * ws.length ≤ a.routine.frame.params)
    (hsaved : m.load (Frame.sp top (frames as) - a.routine.frame.oldFp) =
      .ok (.ofInt (Frame.fp top (frames as))))
    (hlink : Linked At top (m.write (Frame.sp top (frames as)) (Word.allBytes ws)) a.routine.frame
      (frames as)) :
    Laid At top (a :: as) (m.write (Frame.sp top (frames as)) (Word.allBytes ws)) := by
  have hapart : ∀ {c : Activation} {cs : List Activation} {x : Int}, c :: cs <:+ as →
      Frame.sp top (frames cs) - c.routine.frame.oldFp ≤ x →
      (m.write (Frame.sp top (frames as)) (Word.allBytes ws)).load x = m.load x := by
    intro c cs x hc hx
    have hle : Frame.sp top (frames as) + a.routine.frame.params ≤
        Frame.sp top (frames cs) - c.routine.frame.oldFp := hs.params_le _ (frames_suffix hc)
    exact Memory.load_writeAll_of_clear h0 (.inr (by omega))
  refine ⟨fun c cs hc => ?_, fun c cs hc hpc => ?_⟩
  · rcases List.suffix_cons_iff.mp hc with he | hc
    · obtain ⟨rfl, rfl⟩ := List.cons.inj he
      have hold := hs.sized.oldFp_bounds.1
      rw [Memory.load_writeAll_of_clear h0 (.inl (by omega)), hsaved]
    · rw [hapart hc (Int.le_refl _), h.saved c cs hc]
  · rcases List.suffix_cons_iff.mp hc with he | hc
    · obtain ⟨rfl, rfl⟩ := List.cons.inj he
      exact hlink
    · have hold : 8 ≤ c.routine.frame.oldFp :=
        ((hs.of_suffix (List.suffix_cons _ _)).of_suffix (frames_suffix hc)).sized.oldFp_bounds.1
      exact (h.linked c cs hc hpc).of_load (hapart hc (by omega))

lemma Laid.of_suffix {as bs : List Activation} (h : Laid At top as m) (hs : bs <:+ as) :
    Laid At top bs m :=
  ⟨fun a cs hc => h.saved a cs (hc.trans hs), fun a cs hc => h.linked a cs (hc.trans hs)⟩

end Memory

namespace Thread.Follows

variable {At : Frame → List NodeId → Prop} {top : Int} {t : Thread} {m m' : Machine} {image : Image}

lemma eval_link (h : t.Follows At top m) (hi : image.Lexical At)
    (htop : top + 8 < wordBound) (hrun : t.current.pc < t.current.routine.code.size)
    {path : List NodeId} (hat : At t.current.routine.frame path) {outer : List NodeId}
    (hs : outer <:+ path) {w : Word}
    (hw : t.current.eval m (if outer = [] then .const 0
      else .staticLink (path.length - outer.length)) = .ok w) :
    outer = [] ∧ w = 0 ∨
      ∃ gs, Frame.Reaches At outer (frames t.activations) gs ∧ w = .ofInt (Frame.fp top gs) := by
  by_cases ho : outer = []
  · rw [if_pos ho] at hw
    exact .inl ⟨ho, (Except.ok.inj hw).symm⟩
  · rw [if_neg ho] at hw
    obtain ⟨gs, hreach, heval⟩ := h.eval_staticLink hi htop hrun hat _ hs ho rfl
    exact .inr ⟨gs, hreach, Except.ok.inj (hw.symm.trans heval)⟩

lemma entered {r : Routine} {ws : List Word} {d : Destination} {as : List Activation}
    {path : List NodeId} (hshape : r.Shaped At path) (hshapes : ∀ a ∈ as, ∃ path, a.routine.Shaped At path)
    (hstacked : Frame.Stacked (r.frame :: frames as)) (hsp : m.sp = Frame.sp top (frames as))
    (h0 : 0 ≤ m.sp) (hstatic : m.memory.Static (top + 8))
    (hfits : ¬m.sp - r.frame.size < m.memory.staticEnd) (hlaid : Laid At top as m.memory)
    (hws : 8 * ws.length ≤ r.frame.params)
    (hsaved : m.memory.load (m.sp - r.frame.oldFp) = .ok (.ofInt (Frame.fp top (frames as))))
    (hlink : Linked At top (m.memory.write m.sp (Word.allBytes ws)) r.frame (frames as))
    (hawaits : ({ routine := r, destination := d } :: as).IsChain fun a b => b.Awaits a)
    (hheld : ∀ a bs, a :: bs <:+ as → a.Held At m.memory.staticEnd top (frames (a :: bs))) :
    Follows At top ⟨{ routine := r, destination := d }, as⟩ (m.entered r ws) := by
  have hnew := Memory.staticEnd_write m.memory m.sp (Word.allBytes ws)
  refine ⟨?_, hstacked, hsp, ?_, hstatic.write _ _, ?_, ?_, ?_, hawaits, ?_⟩
  · rw [activations, List.forall_mem_cons]
    exact ⟨⟨path, hshape⟩, hshapes⟩
  · simp only [Machine.entered, hsp]
    rfl
  · simp only [Machine.entered, hnew]
    omega
  · simp only [Machine.entered]
    rw [hsp] at h0 hsaved hlink ⊢
    exact hlaid.enter hstacked h0 hws hsaved hlink
  · intro k n _ _ hk
    cases hk
  · simp only [Machine.entered, hnew]
    intro a bs ha
    rcases List.suffix_cons_iff.mp ha with ha | ha
    · obtain ⟨rfl, rfl⟩ := List.cons.inj ha
      intro path _ t x w _ _ hget
      simp at hget
    · exact hheld a bs ha

lemma linked_of_call (h : t.Follows At top m) (hi : image.Lexical At)
    (htop : top + 8 < wordBound) (hrun : t.current.pc < t.current.routine.code.size)
    {path outer : List NodeId} (hat : At t.current.routine.frame path) {n : Int} {l : Label}
    {args : List Exp} {g : Frame} (hsite : CallSite At path t.current.routine.frame n l args g outer)
    {ws : List Word} (hargs : t.current.evalAll m args = .ok ws)
    (hroom : m.sp + 8 * ws.length ≤ m.memory.size) :
    Linked At top (m.memory.write m.sp (Word.allBytes ws)) g (frames t.activations) := by
  obtain ⟨j, hg⟩ := hsite.callee
  obtain ⟨ts, rfl⟩ := hsite.link
  obtain ⟨w, ws, rfl, hw, -⟩ := Sim.evalAll_cons_ok_iff.mp hargs
  have hload := Memory.load_writeAll (i := 0) (h.sp ▸ h.nonneg) hroom rfl
  rw [Int.natCast_zero, Int.mul_zero, Int.add_zero] at hload
  rw [h.sp] at hload ⊢
  refine ⟨j, outer, hg, ?_⟩
  rcases h.eval_link hi htop hrun hat hsite.visible hw with ⟨ho, rfl⟩ | ⟨gs, hreach, rfl⟩
  · exact .inl ⟨ho, hload⟩
  · exact .inr ⟨gs, hreach, hload⟩

lemma enter (h : t.Follows At top m) (hi : image.Lexical At) (htop : top + 8 < wordBound)
    {r : Routine} {ws : List Word} {d : Destination} {caller : Activation} {m₁ : Machine}
    (hs : t.current.Steps image m (.call r ws d caller) m₁)
    (he : r.enter ws d m₁ = .ok { routine := r, destination := d } m') :
    Follows At top ⟨{ routine := r, destination := d }, caller :: t.callers⟩ m' := by
  cases hs with
  | @call f args _ _ _ hv hargs hr =>
  obtain ⟨path, u, hshape, rfl, hs, hn, hf⟩ := h.invoked hv
  obtain ⟨hlabel, path', hshape'⟩ := hi.routine _ _ hr
  rcases hf with ⟨i, rfl⟩ | ⟨k, n, g, outer, hsite, hk, hsave⟩
  · exact (hi.intrinsic _ _ hshape'.frame i hlabel).elim
  obtain ⟨j, hg⟩ := hsite.callee
  obtain ⟨rfl, -⟩ := hi.label _ _ _ _ hshape'.frame hg (hlabel.trans hsite.label)
  obtain ⟨hrun, -⟩ := Array.getElem?_eq_some_iff.mp hs
  have hlength := length_of_evalAll hargs
  have hparams := hsite.params
  have hsized := hi.sized _ _ hg
  have hstacked : Frame.Stacked (r.frame :: frames t.activations) :=
    .cons hsized (hparams ▸ hsite.room) h.stacked
  have h0 : 0 ≤ m.sp := h.sp ▸ h.nonneg
  have hroom : m.sp + 8 * ws.length ≤ m.memory.size := by
    have hle := hstacked.params_le_top top
    rw [h.sp, h.static.size_eq, hlength]
    omega
  rw [Routine.enter_eq h0 hroom] at he
  split at he
  · cases he
  rename_i hfits
  obtain ⟨-, rfl⟩ := EStateM.Result.ok.inj he
  -- the frame pointer has been saved right before, where the callee looks for it
  have hsaved : m.memory.load (m.sp - r.frame.oldFp) =
      .ok (.ofInt (Frame.fp top (frames t.activations))) := by
    have hbound := wordBound_eq
    obtain ⟨hlow, hhigh⟩ := hsized.oldFp_bounds
    have harmed := h.armed k n (by rw [hsite.oldFp]; omega) (by rw [hsite.oldFp]; omega) hk hsave
    rwa [h.fp, hsite.oldFp] at harmed
  have hlink := h.linked_of_call hi htop hrun hshape.frame hsite hargs hroom
  have hlaid : Laid At top (t.current.advance :: t.callers) m.memory :=
    h.laid.update rfl (fun _ _ _ => rfl) (fun _ _ _ => rfl) fun _ => ⟨hrun, rfl⟩
  refine entered hshape' ?_ hstacked h.sp h0 h.static hfits hlaid (by omega) hsaved hlink ?_ ?_
  · rw [List.forall_mem_cons]
    exact ⟨⟨path, hshape⟩, fun a ha => h.shaped a (List.mem_cons_of_mem _ ha)⟩
  · rw [List.isChain_cons_cons]
    exact ⟨⟨t.current.pc, u, f, args, rfl, hn, hs, rfl⟩,
      isChain_of_destination (a := t.current) rfl h.awaits⟩
  · intro a bs ha
    rcases List.suffix_cons_iff.mp ha with ha | ha
    · obtain ⟨rfl, rfl⟩ := List.cons.inj ha
      exact h.held_current
    · exact h.held a bs (ha.trans (List.suffix_cons _ _))

lemma leave (h : t.Follows At top m) (htop : top + 8 < wordBound) {w : Word}
    {caller a : Activation} {callers : List Activation} {m₁ : Machine}
    (hl : t.current.routine.leave m = .ok w m₁) (hc : t.callers = caller :: callers)
    (hw : caller.write w t.current.destination m₁ = .ok a m') :
    Follows At top ⟨a, callers⟩ m' := by
  obtain ⟨v, hv, rfl⟩ := Routine.leave_cases hl
  have hall : t.activations = t.current :: caller :: callers := by rw [activations, hc]
  have hsuffix : caller :: callers <:+ t.activations := hall ▸ List.suffix_cons _ _
  obtain ⟨⟨k, u, l, args, hk, hrun, hs, hd⟩, hchain⟩ := List.isChain_cons_cons.mp (hall ▸ h.awaits)
  rw [hd] at hw
  obtain ⟨rfl, rfl⟩ := Activation.write_temp_ok hw
  have hfp : m.fp = Frame.sp top (frames (caller :: callers)) := by
    rw [h.fp, hall]
    rfl
  have hbounds : Frame.sp top (frames t.activations) ≤ Frame.sp top (frames callers) ∧
      Frame.sp top (frames callers) ≤ top := h.stacked.sp_bounds top (frames_suffix hsuffix)
  have hcallee := h.stacked.sp_bounds top (List.suffix_rfl : frames t.activations <:+ _)
  rw [← hc] at hfp
  have hnonneg := h.nonneg
  have hfloor := h.floor
  rw [h.sp] at hfloor
  have hsaved := h.laid.saved _ _ (List.suffix_rfl : t.activations <:+ _)
  rw [← hfp, hv, hc] at hsaved
  obtain rfl := Except.ok.inj hsaved
  obtain ⟨path, hshape⟩ := h.shaped caller (hsuffix.subset (List.mem_cons_self ..))
  have hlaid : Laid At top (caller :: callers) m.memory := h.laid.of_suffix hsuffix
  have hstacked : Frame.Stacked (frames (caller :: callers)) :=
    h.stacked.of_suffix (frames_suffix hsuffix)
  refine ⟨?_, hstacked, ?_, ?_, h.static, ?_, ?_, ?_, ?_, ?_⟩
  · intro c hc
    rcases List.mem_cons.mp hc with rfl | hc
    · exact ⟨path, hshape⟩
    · exact h.shaped c (hsuffix.subset (List.mem_cons_of_mem _ hc))
  · have hreturn : Frame.fp top (frames (caller :: callers)) = Frame.sp top (frames callers) := rfl
    exact Word.toInt_ofInt (by omega) (by omega)
  · rw [hc] at hfp
    exact hfp
  · change m.memory.staticEnd ≤ m.fp
    rw [hfp]
    exact Int.le_trans hfloor hcallee.1
  · exact hlaid.update rfl (fun _ _ _ => rfl) (fun _ _ _ => rfl) fun _ => ⟨hrun, rfl⟩
  · exact Activation.armed_of_ne hk hs fun n he => by cases he
  · exact isChain_of_destination (a := caller) rfl hchain
  · intro c cs hcs
    rcases List.suffix_cons_iff.mp hcs with he | hcs
    · obtain ⟨rfl, rfl⟩ := List.cons.inj he
      refine (h.held _ _ hsuffix).insert rfl rfl hshape
        (Array.mem_toList_iff.mpr (Array.mem_of_getElem? hs)) fun path' hat hcell => ?_
      have hpure := hcell.isPure
      cases hpure
    · exact h.held c cs (hcs.trans ((List.suffix_cons _ _).trans hsuffix))

lemma advance (h : t.Follows At top m) (hi : image.Lexical At)
    (htop : top + 8 < wordBound) {t' : Thread}
    (ha : t.advance image m = .ok (.running t') m') : t'.Follows At top m' := by
  cases moves_of_advance ha with
  | step hs => exact h.step hi htop hs
  | enter hs he => exact h.enter hi htop hs he
  | leave hend hl hc hw => exact h.leave htop hl hc hw

lemma runFor (h : t.Follows At top m) (hi : image.Lexical At) (htop : top + 8 < wordBound)
    {fuel : Nat} {t' : Thread} (hr : t.runFor image fuel m = (.unfinished t', m')) :
    t'.Follows At top m' := by
  have hend := runFor_invariant (P := fun t m => t.Follows At top m)
    (Q := fun o m => ∀ t, o = .unfinished t → t.Follows At top m)
    (fun t m t' m' h ha => h.advance hi htop ha) (fun t m w m' _ _ t' ho => ?_)
    (fun t m e m' _ _ t' ho => ?_) (fun t m h t' ho => ?_) fuel h
  · rw [hr] at hend
    exact hend t' rfl
  · cases ho
  · cases ho
  · obtain rfl := Outcome.unfinished.inj ho
    exact h

lemma start (hi : image.Lexical At) {n : Int} {m : Machine} (hm : m.memory.Static n)
    (hfp : m.fp = n - 8) (hsp : m.sp = n - 8) {t : Thread} (hs : image.start m = .ok t m') :
    t.Follows At (n - 8) m' := by
  obtain ⟨r, m₁, hr, hp, hstore, he, rfl⟩ := Image.start_cases hs
  obtain ⟨-, path, hshape⟩ := hi.routine _ _ hr
  obtain ⟨i, hat⟩ := hi.entry r hr
  have hsized := hi.sized _ _ hat
  obtain ⟨h8, -⟩ := hsized.oldFp_bounds
  have hstacked : Frame.Stacked (r.frame :: frames []) := .cons hsized hp .nil
  have hnone : ∀ {a : Activation} {bs : List Activation}, ¬a :: bs <:+ [] :=
    fun ha => List.not_mem_nil (ha.subset (List.mem_cons_self ..))
  obtain ⟨hx, rfl⟩ := Machine.store_ok_iff.mp hstore
  have hsaved := Machine.load_saved hx
  have hsp' := m.sp_saved r.frame.oldFp
  have hstatic : (m.saved r.frame.oldFp).memory.Static (n - 8 + 8) := by
    rw [Int.sub_add_cancel]
    exact hm.write _ _
  change r.enter [0] .discard (m.saved r.frame.oldFp) = _ at he
  generalize m.saved r.frame.oldFp = m₂ at hsaved hsp' hstatic he
  have hpos := (Memory.holds_iff.mp hx).1
  rw [hsp] at hsp' hpos hsaved
  have h0 : 0 ≤ m₂.sp := by omega
  have hroom : m₂.sp + 8 * ([0] : List Word).length ≤ m₂.memory.size := by
    rw [hsp', hstatic.size_eq]
    exact Int.le_refl _
  rw [Routine.enter_eq h0 hroom] at he
  split at he
  · cases he
  rename_i hfits
  obtain ⟨-, rfl⟩ := EStateM.Result.ok.inj he
  have hempty : Laid At (n - 8) [] m₂.memory :=
    ⟨fun a bs ha => (hnone ha).elim, fun a bs ha => (hnone ha).elim⟩
  refine entered hshape nofun hstacked hsp' h0 hstatic hfits hempty hsized.params ?_ ?_
    (.singleton _) fun a bs ha => (hnone ha).elim
  · rw [hsp', hsaved, hfp]
    rfl
  · refine ⟨i, [], hat, .inl ⟨rfl, ?_⟩⟩
    have hload := Memory.load_writeAll (i := 0) h0 hroom rfl
    rw [Int.natCast_zero, Int.mul_zero, Int.add_zero] at hload
    rw [← hload, hsp']
    rfl

end Thread.Follows

namespace Source.Program

variable {p : Program} {entry : String} {code : Code.Program} {layout : Layout} {st : State}
variable {setup : Setup} {image : Image} {m : Machine}

lemma Compiles.lexical (h : p.Compiles entry code layout st) (hr : p.Regular)
    (hs : code.statements.length ≤ UInt32.size) (hl : Image.load code setup = .ok (image, m)) :
    image.Lexical (p.FrameAt layout) where
  routine _ _ hget := h.shaped hr hs hl hget
  entry _ he := h.entry_frame hr hl he
  path _ _ hf := hf.eq_cons
  frame _ _ _ hf hg := hf.frame_unique hg
  label _ _ _ _ hf hg he := hr.eq_of_label h.layout_eq hf hg he
  sized f P hf := by
    obtain ⟨outer, n, x, ps, t, b, -, ho, hf⟩ := hf
    obtain ⟨f', hf', hframed⟩ := hr.framed h.layout_eq ho
    obtain rfl := Option.some.inj (hf.symm.trans hf')
    refine ⟨hframed.locals.1, hframed.locals.2, hframed.outgoing, ?_⟩
    rw [hframed.params]
    omega
  intrinsic f P hf i := by
    obtain ⟨outer, n, x, ps, t, b, -, ho, hf⟩ := hf
    exact Layout.label_ne_intrinsic h.layout_eq hr.unique hr.named hf i

lemma Compiles.follows (h : p.Compiles entry code layout st) (hr : p.Regular)
    (hs : code.statements.length ≤ UInt32.size) (hn : setup.memorySize < wordBound)
    (hl : Image.load code setup = .ok (image, m)) {fuel : Nat} {t : Thread} {m' : Machine}
    (hrun : image.run fuel m = (.unfinished t, m')) :
    t.Follows (p.FrameAt layout) (setup.memorySize - 8) m' := by
  have hi := h.lexical hr hs hl
  have hstatic := Image.static_of_load hl
  obtain ⟨memory, -, -, rfl⟩ := Image.load_ok.mp hl
  have hsize : memory.size = setup.memorySize := hstatic.size_eq
  cases hstart : image.start _ with
  | error e m₀ =>
    rw [Image.run_of_start_error hstart] at hrun
    cases hrun
  | ok t₀ m₀ =>
    rw [Image.run_of_start hstart] at hrun
    have hfirst := Thread.Follows.start hi hstatic
      (by rw [hsize]; rfl) (by rw [hsize]; rfl) hstart
    exact hfirst.runFor hi (by omega) hrun

end Source.Program

/-- In every state of a run the frames lie one below the other from the last word of memory on, the
registers are those of the running function, each function finds the frame pointer of its caller where
it was saved, and its static link leads to the function around it until its value takes that place.

More than `UInt32.size` statements may share temporaries, as those are numbered by 32 bits. -/
theorem static_links_in_place {p : Source.Program} {entry : String} {code : Code.Program}
    {setup : Setup} {image : Image} {m m' : Machine} {fuel : Nat} {t : Thread} (hr : p.Regular)
    (hc : p.compile entry = .ok code) (hs : code.statements.length ≤ UInt32.size)
    (hn : setup.memorySize < wordBound) (hl : Image.load code setup = .ok (image, m))
    (hrun : image.run fuel m = (.unfinished t, m')) :
    ∃ layout, p.layout = .ok layout ∧
      m'.fp = Frame.fp (setup.memorySize - 8) (frames t.activations) ∧
      m'.sp = m'.fp - t.current.routine.frame.size ∧
      Laid (p.FrameAt layout) (setup.memorySize - 8) t.activations m'.memory := by
  obtain ⟨layout, st, h⟩ := Source.Program.compile_ok.mp hc
  have hfollows := h.follows hr hs hn hl hrun
  refine ⟨layout, h.layout_eq, hfollows.fp, ?_, hfollows.laid⟩
  rw [hfollows.sp, hfollows.fp]
  rfl

/-! A nested function that calls itself: its static link stays that of the function around it.
```text
fun outer(n: integer): integer = inner(n) where fun inner(k: integer): integer = inner(k + n)
fun main(): integer = outer(1)
```
-/

def nestedRecursion : Build Source.Program := do
  let n ← Builder.param "n" .int
  let outer ← Builder.signature "outer" [n] .int
  let main ← Builder.signature "main" [] .int
  let k ← Builder.param "k" .int
  let inner ← Builder.signature "inner" [k] .int
  let sum ← Builder.compute .add (← Builder.name k.ref) (← Builder.name n.ref)
  let innerBody ← Builder.call inner [sum]
  let first ← Builder.call inner [← Builder.name n.ref]
  let outerBody ← Builder.whereDefs first [Builder.func inner innerBody]
  let mainBody ← Builder.call outer [← Builder.int 1]
  Builder.finish [Builder.func outer outerBody, Builder.func main mainBody]

def Outcome.isBelow (n : Nat) : Outcome → Bool
  | .unfinished t => t.callers.length = n
  | .value _ | .fault _ => false

theorem static_links_in_place_nested :
    ∃ p code image m t m' layout, Builder.run nestedRecursion = .ok p ∧ p.Regular ∧
      p.compile "main" = .ok code ∧ code.statements.length ≤ UInt32.size ∧
      Image.load code ⟨256, .ofSeed 0, none⟩ = .ok (image, m) ∧
      image.run 9 m = (.unfinished t, m') ∧ t.callers.length = 3 ∧ p.layout = .ok layout ∧
      m'.fp = Frame.fp 248 (frames t.activations) ∧
      m'.sp = m'.fp - t.current.routine.frame.size ∧
      Laid (p.FrameAt layout) 248 t.activations m'.memory := by
  obtain ⟨p, hb, h⟩ : ∃ p, Builder.run nestedRecursion = .ok p ∧
      (decide p.Regular && (p.compile "main").toOption.any fun code =>
        decide (code.statements.length ≤ UInt32.size) &&
          (Image.load code ⟨256, .ofSeed 0, none⟩).toOption.any fun state =>
            (state.1.run 9 state.2).1.isBelow 3) = true :=
    exists_ok_of_any (by decide +kernel)
  obtain ⟨hr, h⟩ := Bool.and_eq_true_iff.mp h
  obtain ⟨code, hc, h⟩ := exists_ok_of_any h
  obtain ⟨hs, h⟩ := Bool.and_eq_true_iff.mp h
  obtain ⟨⟨image, m⟩, hl, h⟩ := exists_ok_of_any h
  cases ho : image.run 9 m with
  | mk out m' =>
    rw [ho] at h
    cases out with
    | unfinished t =>
      obtain ⟨layout, hlayout, hfollows⟩ := static_links_in_place (of_decide_eq_true hr) hc
        (of_decide_eq_true hs) (by decide) hl ho
      exact ⟨p, code, image, m, t, m', layout, hb, of_decide_eq_true hr, hc, of_decide_eq_true hs, hl,
        ho, of_decide_eq_true h, hlayout, hfollows⟩
    | value w => cases h
    | fault e => cases h

end BlockLang
