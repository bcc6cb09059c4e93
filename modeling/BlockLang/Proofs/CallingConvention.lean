import BlockLang.Proofs.CallSequence
import BlockLang.Proofs.Intrinsics
import BlockLang.Proofs.RoutineShape
import BlockLang.Proofs.StepCases

/-! The calling convention of compiled programs: where the frames of the running functions are, and
that the static link of each of them leads to the function around it. -/

namespace BlockLang

open Source Code Lowering

def frames (as : List Activation) : List Frame := as.map fun a => a.routine.frame

lemma frames_suffix {as bs : List Activation} (h : bs <:+ as) : frames bs <:+ frames as := h.map _

lemma exists_of_suffix_frames {as : List Activation} {f : Frame} {gs : List Frame}
    (h : f :: gs <:+ frames as) :
    ∃ a bs, a :: bs <:+ as ∧ a.routine.frame = f ∧ frames bs = gs := by
  obtain ⟨hs, he⟩ := h
  obtain ⟨cs, ds, rfl, -, hds⟩ := List.map_eq_append_iff.mp he.symm
  obtain ⟨a, bs, rfl, ha, hbs⟩ := List.map_eq_cons_iff.mp hds
  exact ⟨a, bs, List.suffix_append cs _, ha, hbs⟩

section Memory

variable (At : Frame → List NodeId → Prop) (top : Int)

def Linked (m : Memory) (f : Frame) (gs : List Frame) : Prop :=
  ∃ i outer, At f (i :: outer) ∧
    ((outer = [] ∧ m.load (Frame.sp top gs) = .ok 0) ∨
      ∃ hs, Frame.Reaches At outer gs hs ∧ m.load (Frame.sp top gs) = .ok (.ofInt (Frame.fp top hs)))

/-- The saved frame pointers and static links of activations, the running one first. -/
structure Laid (as : List Activation) (m : Memory) : Prop where
  saved : ∀ a bs, a :: bs <:+ as →
    m.load (Frame.sp top (frames bs) - a.routine.frame.oldFp) = .ok (.ofInt (Frame.fp top (frames bs)))
  linked : ∀ a bs, a :: bs <:+ as → a.pc < a.routine.code.size →
    Linked At top m a.routine.frame (frames bs)

variable {At top} {m m' : Memory}

lemma Linked.of_load {f : Frame} {gs : List Frame} (h : Linked At top m f gs)
    (hl : m'.load (Frame.sp top gs) = m.load (Frame.sp top gs)) : Linked At top m' f gs := by
  obtain ⟨i, outer, hat, ⟨ho, h0⟩ | ⟨hs, hr, hload⟩⟩ := h
  · exact ⟨i, outer, hat, .inl ⟨ho, hl.trans h0⟩⟩
  · exact ⟨i, outer, hat, .inr ⟨hs, hr, hl.trans hload⟩⟩

variable {a a' : Activation} {bs : List Activation}

lemma Laid.update (h : Laid At top (a :: bs) m) (hr : a'.routine = a.routine)
    (hsaved : ∀ c cs, c :: cs <:+ a :: bs →
      m'.load (Frame.sp top (frames cs) - c.routine.frame.oldFp) =
        m.load (Frame.sp top (frames cs) - c.routine.frame.oldFp))
    (hlinks : ∀ c cs, c :: cs <:+ bs →
      m'.load (Frame.sp top (frames cs)) = m.load (Frame.sp top (frames cs)))
    (hlink : a'.pc < a'.routine.code.size → a.pc < a.routine.code.size ∧
      m'.load (Frame.sp top (frames bs)) = m.load (Frame.sp top (frames bs))) :
    Laid At top (a' :: bs) m' := by
  refine ⟨fun c cs hc => ?_, fun c cs hc hpc => ?_⟩
  · rcases List.suffix_cons_iff.mp hc with he | hc
    · obtain ⟨rfl, rfl⟩ := List.cons.inj he
      rw [hr, hsaved a cs List.suffix_rfl, h.saved a cs List.suffix_rfl]
    · have hc' := hc.trans (List.suffix_cons a bs)
      rw [hsaved c cs hc', h.saved c cs hc']
  · rcases List.suffix_cons_iff.mp hc with he | hc
    · obtain ⟨rfl, rfl⟩ := List.cons.inj he
      obtain ⟨hpc', hload⟩ := hlink hpc
      rw [hr]
      exact (h.linked a cs List.suffix_rfl hpc').of_load hload
    · exact (h.linked c cs (hc.trans (List.suffix_cons a bs)) hpc).of_load (hlinks c cs hc)

end Memory

lemma Intrinsic.same_of_exec {i : Intrinsic} {ws : List Word} {r : Option Word} {m m' : Machine}
    (h : i.exec ws m = .ok r m') : m.Same m' := by
  have hsame := i.exec_same ws m
  rwa [Exec.after_ok h] at hsame

lemma saveFp_inj {n n' : Int} (h0 : 0 ≤ n) (h : n < wordBound) (h0' : 0 ≤ n')
    (h' : n' < wordBound) (he : saveFp n = saveFp n') : n = n' := by
  have hword : Int64.ofInt n = Int64.ofInt n' :=
    Exp.const.inj (Exp.binop.inj (Exp.mem.inj (Stm.move.inj he).1)).2.2
  have hint := congrArg Int64.toInt hword
  rwa [Word.toInt_ofInt h0 h, Word.toInt_ofInt h0' h'] at hint

namespace Activation

def Armed (a : Activation) (m : Machine) : Prop :=
  ∀ k n, 0 ≤ n → n < wordBound → a.pc = k + 1 → a.routine.code[k]? = some (saveFp n) →
    m.memory.load (m.sp - n) = .ok (.ofInt m.fp)

def Awaits (b a : Activation) : Prop :=
  ∃ k t l args, b.pc = k + 1 ∧ b.pc < b.routine.code.size ∧
    b.routine.code[k]? = some (.move (.temp t) (.call l args)) ∧ a.destination = .temp t

def Held (At : Frame → List NodeId → Prop) (low top : Int) (fs : List Frame) (a : Activation) : Prop :=
  ∀ path, At a.routine.frame path → ∀ t x w, .move (.temp t) x ∈ a.routine.code.toList →
    Cell At path x → a.temps[t]? = some w → Frame.Spot low top fs w.toInt

lemma eval_offset {a : Activation} {m : Machine} {x : Exp} {b n : Int}
    (h : a.eval m x = .ok (.ofInt b)) : a.eval m (x.offset n) = .ok (.ofInt (b + n)) := by
  unfold Exp.offset
  split
  · rename_i h0
    rw [h, h0, Int.add_zero]
  · simp only [eval, h, Op.apply, Int64.ofInt_add]
    rfl

variable {At : Frame → List NodeId → Prop} {a b : Activation} {m m' : Machine}

lemma Armed.of_same (h : a.Armed m) (hm : m.Same m') : a.Armed m' := by
  intro k n h0 hn hk hs
  rw [hm.memory, hm.sp, hm.fp]
  exact h k n h0 hn hk hs

lemma armed_of_ne {k : Nat} {s : Stm} (hk : b.pc = k + 1) (hs : b.routine.code[k]? = some s)
    (hne : ∀ n, saveFp n ≠ s) : b.Armed m := by
  intro k' n _ _ hk' hs'
  obtain rfl : k = k' := by omega
  exact (hne n (Option.some.inj (hs'.symm.trans hs))).elim

lemma Held.insert {low top : Int} {fs : List Frame} (h : a.Held At low top fs)
    (hr : b.routine = a.routine) {t : Temp} {w : Word} (ht : b.temps = a.temps.insert t w)
    {path : List NodeId} (hshape : a.routine.Shaped At path) {x : Exp}
    (hx : .move (.temp t) x ∈ a.routine.code.toList)
    (hw : ∀ path, At a.routine.frame path → Cell At path x → Frame.Spot low top fs w.toInt) :
    b.Held At low top fs := by
  intro path' hat t' x' w' hm hc hget
  rw [hr] at hat hm
  rw [ht, Std.TreeMap.getElem?_insert] at hget
  split at hget
  · rename_i he
    obtain rfl := Std.LawfulEqCmp.compare_eq_iff_eq.mp he
    obtain rfl := Option.some.inj hget
    obtain rfl := hshape.once t x x' hx hm
    exact hw path' hat hc
  · exact h path' hat t' x' w' hm hc hget

lemma write_temp_ok {w : Word} {t : Temp} (h : a.write w (.temp t) m = .ok b m') :
    b = { a with temps := a.temps.insert t w } ∧ m' = m := by
  obtain ⟨rfl, rfl⟩ := Exec.pure_ok.mp h
  exact ⟨rfl, rfl⟩

lemma write_memory_ok {w : Word} {x : Int} (h : a.write w (.memory x) m = .ok b m') :
    m.memory.holds x 8 = true ∧ b = a ∧ m' = { m with memory := m.memory.write x w.toBytes } := by
  obtain ⟨_, m₁, hstore, h⟩ := Exec.bind_ok.mp h
  obtain ⟨rfl, rfl⟩ := Exec.pure_ok.mp h
  obtain ⟨hx, rfl⟩ := Machine.store_ok_iff.mp hstore
  exact ⟨hx, rfl, rfl⟩

lemma place_mem_ok {x : Exp} {d : Destination} (h : a.place m (.mem x) = .ok d) :
    ∃ v, a.eval m x = .ok v ∧ d = .memory v.toInt := by
  simp only [place] at h
  cases hv : a.eval m x with
  | error e =>
    rw [hv] at h
    cases h
  | ok v =>
    rw [hv] at h
    exact ⟨v, rfl, (Except.ok.inj h).symm⟩

end Activation

def Thread.activations (t : Thread) : List Activation := t.current :: t.callers

/-- What holds of a running program. -/
structure Thread.Follows (At : Frame → List NodeId → Prop) (top : Int) (t : Thread) (m : Machine) :
    Prop where
  shaped : ∀ a ∈ t.activations, ∃ path, a.routine.Shaped At path
  stacked : Frame.Stacked (frames t.activations)
  fp : m.fp = Frame.fp top (frames t.activations)
  sp : m.sp = Frame.sp top (frames t.activations)
  static : m.memory.Static (top + 8)
  floor : m.memory.staticEnd ≤ m.sp
  laid : Laid At top t.activations m.memory
  armed : t.current.Armed m
  awaits : t.activations.IsChain fun a b => b.Awaits a
  held : ∀ a bs, a :: bs <:+ t.activations → a.Held At m.memory.staticEnd top (frames (a :: bs))

structure Image.Lexical (At : Frame → List NodeId → Prop) (image : Image) : Prop where
  routine : ∀ (l : Label) (r : Routine), image.routines[l]? = some r →
    r.frame.label = l ∧ ∃ path, r.Shaped At path
  entry : ∀ r : Routine, image.routines[image.entry]? = some r → ∃ i, At r.frame [i]
  path : ∀ f P, At f P → ∃ i outer, P = i :: outer
  frame : ∀ f g P, At f P → At g P → f = g
  label : ∀ f g P Q, At f P → At g Q → f.label = g.label → f = g ∧ P = Q
  sized : ∀ f P, At f P → f.Sized
  intrinsic : ∀ f P, At f P → ∀ i : Intrinsic, f.label ≠ i.label

lemma isChain_of_destination {a b : Activation} {bs : List Activation}
    (hd : b.destination = a.destination) (h : (a :: bs).IsChain fun a b => b.Awaits a) :
    (b :: bs).IsChain fun a b => b.Awaits a := by
  cases bs with
  | nil => exact .singleton _
  | cons c bs =>
    rw [List.isChain_cons_cons] at h ⊢
    obtain ⟨⟨k, t, l, args, hk, hc, hcall, hdest⟩, h⟩ := h
    exact ⟨⟨k, t, l, args, hk, hc, hcall, hd.trans hdest⟩, h⟩

lemma pc_lt_of_awaits {a : Activation} {bs : List Activation}
    (h : (a :: bs).IsChain fun a b => b.Awaits a) (ha : a.pc < a.routine.code.size) :
    ∀ c ∈ a :: bs, c.pc < c.routine.code.size := by
  induction bs generalizing a with
  | nil =>
    intro c hc
    rwa [List.mem_singleton.mp hc]
  | cons b bs ih =>
    rw [List.isChain_cons_cons] at h
    obtain ⟨⟨_, _, _, _, -, hb, -, -⟩, h⟩ := h
    rw [List.forall_mem_cons]
    exact ⟨ha, ih h hb⟩

namespace Thread.Follows

variable {At : Frame → List NodeId → Prop} {top : Int} {t : Thread} {m : Machine} {image : Image}

lemma nonneg (h : t.Follows At top m) : 0 ≤ Frame.sp top (frames t.activations) := by
  have hstart := h.static.start
  have hfloor := h.floor
  rw [h.sp] at hfloor
  omega

lemma pc_lt (h : t.Follows At top m) (hrun : t.current.pc < t.current.routine.code.size) :
    ∀ a ∈ t.activations, a.pc < a.routine.code.size :=
  pc_lt_of_awaits h.awaits hrun

lemma eval_staticLink (h : t.Follows At top m) (hi : image.Lexical At)
    (htop : top + 8 < wordBound) (hrun : t.current.pc < t.current.routine.code.size)
    {path : List NodeId} (hat : At t.current.routine.frame path) (k : Nat) {outer : List NodeId}
    (hs : outer <:+ path) (hne : outer ≠ []) (hk : path.length - outer.length = k) :
    ∃ gs, Frame.Reaches At outer (frames t.activations) gs ∧
      t.current.eval m (.staticLink k) = .ok (.ofInt (Frame.fp top gs)) := by
  induction k generalizing outer with
  | zero =>
    have hlength : outer.length = path.length := by
      have hle := hs.length_le
      omega
    obtain rfl := hs.eq_of_length hlength
    refine ⟨_, .refl hat, ?_⟩
    have hname : t.current.eval m (.staticLink 0) = .ok (.ofInt m.fp) := rfl
    rw [hname, h.fp]
    rfl
  | succ k ih =>
    -- the function that is one level further in
    obtain ⟨pre, rfl⟩ := hs
    obtain ⟨pre, i, rfl⟩ : ∃ pre' i, pre = pre' ++ [i] := by
      rcases List.eq_nil_or_concat pre with rfl | ⟨pre', i, he⟩
      · simp at hk
      · exact ⟨pre', i, by simpa using he⟩
    have hsuf : i :: outer <:+ pre ++ [i] ++ outer := ⟨pre, by simp⟩
    obtain ⟨gs, hreach, heval⟩ := ih hsuf (List.cons_ne_nil _ _) (by simp at hk ⊢; omega)
    obtain ⟨g, rest, rfl, hg⟩ := hreach.1
    obtain ⟨a, bs, ha, rfl, rfl⟩ := exists_of_suffix_frames hreach.suffix
    have hbounds := h.stacked.sp_bounds top hreach.suffix
    have hnonneg := h.nonneg
    obtain ⟨j, around, hj, hlink⟩ := h.laid.linked a bs ha (h.pc_lt hrun a (ha.subset (by simp)))
    obtain ⟨-, he⟩ := hi.label _ _ _ _ hj hg rfl
    obtain ⟨rfl, rfl⟩ := List.cons.inj he
    obtain ⟨ho, -⟩ | ⟨hs, hreach', hload⟩ := hlink
    · exact (hne ho).elim
    · refine ⟨hs, hreach.outward hreach', ?_⟩
      have hword : (Int64.ofInt (Frame.fp top (a.routine.frame :: frames bs))).toInt =
          Frame.sp top (frames bs) :=
        Word.toInt_ofInt (by simp only [Frame.fp, List.tail_cons]; omega)
          (by simp only [Frame.fp, List.tail_cons]; omega)
      have hmem : t.current.eval m (.staticLink (k + 1)) =
          (t.current.eval m (.staticLink k)).bind fun w => m.memory.load w.toInt := rfl
      rw [hmem, heval]
      exact (congrArg m.memory.load hword).trans hload

lemma spot_of_cell (h : t.Follows At top m) (hi : image.Lexical At)
    (htop : top + 8 < wordBound) (hrun : t.current.pc < t.current.routine.code.size)
    {path : List NodeId} (hat : At t.current.routine.frame path) {x : Exp} (hx : Cell At path x)
    {w : Word} (hw : t.current.eval m x = .ok w) :
    Frame.Spot m.memory.staticEnd top (frames t.activations) w.toInt := by
  have hnonneg := h.nonneg
  have hle := h.stacked.sp_le_top top
  have hfloor := h.floor
  rw [h.sp] at hfloor
  cases hx with
  | @global l hf hs =>
    have hname : t.current.eval m (.name l) = m.nameValue l := rfl
    rw [hname, Machine.nameValue, if_neg hf, if_neg hs] at hw
    cases ha : m.memory.addressOf? l with
    | none =>
      rw [ha] at hw
      cases hw
    | some a =>
      rw [ha] at hw
      obtain rfl := Except.ok.inj hw
      have hword := h.static.word l a ha
      have hint : (Int64.ofInt a).toInt = a := Word.toInt_ofInt (by omega) (by omega)
      rw [hint]
      exact .inl hword
  | @frame g outer offset hg hs hc =>
    obtain ⟨i, around, rfl⟩ := hi.path g outer hg
    obtain ⟨gs, hreach, heval⟩ :=
      h.eval_staticLink hi htop hrun hat _ hs (List.cons_ne_nil _ _) rfl
    obtain ⟨g', rest, rfl, hg'⟩ := hreach.1
    obtain rfl := hi.frame _ _ _ hg hg'
    rw [Activation.eval_offset heval] at hw
    obtain rfl := Except.ok.inj hw
    have hbounds := h.stacked.cell_bounds top hreach.suffix hc
    have hint : (Int64.ofInt (Frame.fp top (g :: rest) + offset)).toInt =
        Frame.sp top rest + offset :=
      Word.toInt_ofInt (by simp only [Frame.fp, List.tail_cons]; omega)
        (by simp only [Frame.fp, List.tail_cons]; omega)
    rw [hint]
    exact .inr ⟨g, rest, offset, hreach.suffix, hc, rfl⟩

variable {a : Activation} {m' : Machine}

lemma update (h : t.Follows At top m) (hr : a.routine = t.current.routine)
    (hd : a.destination = t.current.destination) (hfp : m'.fp = m.fp) (hsp : m'.sp = m.sp)
    (hs : m'.memory.Static (top + 8)) (he : m'.memory.staticEnd = m.memory.staticEnd)
    (hl : Laid At top (a :: t.callers) m'.memory) (ha : a.Armed m')
    (hh : a.Held At m.memory.staticEnd top (frames t.activations)) :
    Follows At top { t with current := a } m' := by
  have hframes : frames (a :: t.callers) = frames t.activations := by
    rw [frames, List.map_cons, hr]
    rfl
  refine ⟨?_, hframes ▸ h.stacked, ?_, ?_, hs, ?_, hl, ha, isChain_of_destination hd h.awaits,
    fun c cs hc => ?_⟩
  · intro c hc
    rcases List.mem_cons.mp hc with rfl | hc
    · rw [hr]
      exact h.shaped _ (List.mem_cons_self ..)
    · exact h.shaped c (List.mem_cons_of_mem _ hc)
  · rw [hfp, h.fp, ← hframes]
    rfl
  · rw [hsp, h.sp, ← hframes]
    rfl
  · rw [he, hsp]
    exact h.floor
  · rw [he]
    rcases List.suffix_cons_iff.mp hc with he' | hc
    · obtain ⟨rfl, rfl⟩ := List.cons.inj he'
      rw [hframes]
      exact hh
    · exact h.held c cs (hc.trans (List.suffix_cons _ _))

lemma held_current (h : t.Follows At top m) :
    t.current.Held At m.memory.staticEnd top (frames t.activations) :=
  h.held _ _ List.suffix_rfl

lemma quiet (h : t.Follows At top m) (hrun : t.current.pc < t.current.routine.code.size)
    (hr : a.routine = t.current.routine) (hd : a.destination = t.current.destination)
    (hm : m.Same m') (ha : a.Armed m')
    (hh : a.Held At m.memory.staticEnd top (frames t.activations)) :
    Follows At top { t with current := a } m' := by
  have hmem := hm.memory
  refine h.update hr hd hm.fp hm.sp (hmem ▸ h.static) (by rw [hmem]) ?_ ha hh
  refine h.laid.update hr (fun c cs _ => ?_) (fun c cs _ => ?_) fun _ => ⟨hrun, ?_⟩
  · rw [hmem]
  · rw [hmem]
  · rw [hmem]

lemma stored (h : t.Follows At top m) (hrun : t.current.pc < t.current.routine.code.size) {x : Int}
    {w : Word} (hx : m.memory.holds x 8 = true)
    (hsaved : ∀ c cs, c :: cs <:+ t.activations →
      Clear x (Frame.sp top (frames cs) - c.routine.frame.oldFp))
    (hlinks : ∀ c cs, c :: cs <:+ t.callers → Clear x (Frame.sp top (frames cs)))
    (hlink : t.current.pc + 1 < t.current.routine.code.size →
      Clear x (Frame.sp top (frames t.callers)))
    (ha : t.current.advance.Armed { m with memory := m.memory.write x w.toBytes }) :
    Follows At top { t with current := t.current.advance }
      { m with memory := m.memory.write x w.toBytes } := by
  have h0 := (Memory.holds_iff.mp hx).1
  have hstatic := h.static.write x w.toBytes
  have hend := Memory.staticEnd_write m.memory x w.toBytes
  have hlaid : Laid At top (t.current.advance :: t.callers) (m.memory.write x w.toBytes) := by
    refine h.laid.update rfl (fun c cs hc => ?_) (fun c cs hc => ?_) fun hpc => ⟨hrun, ?_⟩
    · exact Memory.load_write_of_clear h0 (hsaved c cs hc)
    · exact Memory.load_write_of_clear h0 (hlinks c cs hc)
    · exact Memory.load_write_of_clear h0 (hlink hpc)
  generalize m.memory.write x w.toBytes = memory at *
  exact h.update rfl rfl (Eq.refl m.fp) (Eq.refl m.sp) hstatic hend hlaid ha h.held_current

lemma assigned (h : t.Follows At top m) (hrun : t.current.pc < t.current.routine.code.size) {x : Int}
    {w : Word} (hx : m.memory.holds x 8 = true)
    (hs : Frame.Spot m.memory.staticEnd top (frames t.activations) x)
    (ha : t.current.advance.Armed { m with memory := m.memory.write x w.toBytes }) :
    Follows At top { t with current := t.current.advance }
      { m with memory := m.memory.write x w.toBytes } := by
  have hfloor := h.floor
  rw [h.sp] at hfloor
  have hclear : ∀ c cs, c :: cs <:+ t.activations → Clear x (Frame.sp top (frames cs)) ∧
      Clear x (Frame.sp top (frames cs) - c.routine.frame.oldFp) :=
    fun c cs hc => hs.clear h.stacked hfloor (frames_suffix hc)
  exact h.stored hrun hx (fun c cs hc => (hclear c cs hc).2)
    (fun c cs hc => (hclear c cs (hc.trans (List.suffix_cons _ _))).1)
    (fun _ => (hclear _ _ List.suffix_rfl).1) ha

lemma returned (h : t.Follows At top m) {w : Word}
    (hpc : t.current.pc + 1 = t.current.routine.code.size) (hx : m.memory.holds m.fp 8 = true)
    (ha : t.current.advance.Armed { m with memory := m.memory.write m.fp w.toBytes }) :
    Follows At top { t with current := t.current.advance }
      { m with memory := m.memory.write m.fp w.toBytes } := by
  have hold : t.current.routine.frame.oldFp = t.current.routine.frame.locals + 8 := rfl
  have hsized : t.current.routine.frame.Sized := h.stacked.sized
  have hlocals := hsized.locals
  have hparams := hsized.params
  have hfp : m.fp = Frame.sp top (frames t.callers) + 0 := by
    rw [h.fp, Int.add_zero]
    rfl
  have hlow : -t.current.routine.frame.oldFp ≤ 0 := by omega
  have hhigh : 0 + 8 ≤ t.current.routine.frame.params := by omega
  have hclear : ∀ c cs, c :: cs <:+ t.callers → Clear m.fp (Frame.sp top (frames cs)) ∧
      Clear m.fp (Frame.sp top (frames cs) - c.routine.frame.oldFp) := by
    intro c cs hc
    rw [hfp]
    refine h.stacked.clear_of_ne List.suffix_rfl
      (frames_suffix (hc.trans (List.suffix_cons _ _))) (fun he => ?_) hlow hhigh
    have hlength := (frames_suffix hc).length_le
    have he' := congrArg List.length he
    simp [frames] at hlength he'
    omega
  refine h.stored (by omega) hx (fun c cs hc => ?_) (fun c cs hc => (hclear c cs hc).1)
    (fun hlt => absurd hlt (by omega)) ha
  rcases List.suffix_cons_iff.mp hc with he | hc
  · obtain ⟨rfl, rfl⟩ := List.cons.inj he
    exact .inr (by omega)
  · exact (hclear c cs hc).2

lemma saved (h : t.Follows At top m) (hrun : t.current.pc < t.current.routine.code.size) {n : Int}
    (hn : 8 ≤ n) (hx : m.memory.holds (m.sp - n) 8 = true)
    (ha : t.current.advance.Armed (m.saved n)) :
    Follows At top { t with current := t.current.advance } (m.saved n) := by
  have hbelow : ∀ c cs, c :: cs <:+ t.activations →
      m.sp ≤ Frame.sp top (frames cs) - c.routine.frame.oldFp ∧ m.sp ≤ Frame.sp top (frames cs) := by
    intro c cs hc
    rw [h.sp]
    exact ⟨h.stacked.sp_le _ (frames_suffix hc), (h.stacked.sp_bounds _ (frames_suffix hc)).1⟩
  refine h.stored hrun hx (fun c cs hc => .inl ?_) (fun c cs hc => .inl ?_) (fun _ => .inl ?_) ha
  · have hle := (hbelow c cs hc).1
    omega
  · have hle := (hbelow c cs (hc.trans (List.suffix_cons _ _))).2
    omega
  · have hle := (hbelow _ _ List.suffix_rfl).2
    omega

lemma shaped_current (h : t.Follows At top m) : ∃ path, t.current.routine.Shaped At path :=
  h.shaped _ (List.mem_cons_self ..)

lemma move_plain (h : t.Follows At top m) (hi : image.Lexical At)
    (htop : top + 8 < wordBound) {path : List NodeId}
    (hshape : t.current.routine.Shaped At path) {dst src : Exp} {d : Destination} {w : Word}
    (hp : Plain (Cell At path) t.current.routine.code.toList (.move dst src))
    (hs : t.current.routine.code[t.current.pc]? = some (.move dst src)) (hc : src.isCall = false)
    (hd : t.current.place m dst = .ok d) (hv : t.current.eval m src = .ok w)
    (hw : t.current.advance.write w d m = .ok a m') :
    Follows At top { t with current := a } m' := by
  obtain ⟨hrun, -⟩ := Array.getElem?_eq_some_iff.mp hs
  have harmed : ∀ {b : Activation} {m' : Machine}, b.routine = t.current.routine →
      b.pc = t.current.pc + 1 → b.Armed m' :=
    fun hb hpc => Activation.armed_of_ne hpc (hb ▸ hs) fun n he => not_plain_saveFp (he ▸ hp)
  generalize hstm : Stm.move dst src = s at hp
  cases hp with
  | @temp u x hx =>
    cases hstm
    obtain rfl := Except.ok.inj hd
    obtain ⟨rfl, rfl⟩ := Activation.write_temp_ok hw
    refine h.quiet hrun rfl rfl .refl (harmed rfl rfl) ?_
    refine h.held_current.insert rfl rfl hshape (Array.mem_toList_iff.mpr
      (Array.mem_of_getElem? hs)) fun path' hat hcell => ?_
    exact h.spot_of_cell hi htop hrun hat hcell hv
  | cell ha hx =>
    cases hstm
    obtain ⟨v, hv', rfl⟩ := Activation.place_mem_ok hd
    obtain ⟨hholds, rfl, rfl⟩ := Activation.write_memory_ok hw
    exact h.assigned hrun hholds (h.spot_of_cell hi htop hrun hshape.frame ha hv') (harmed rfl rfl)
  | @held u b x ha hm hx =>
    cases hstm
    obtain ⟨v, hv', rfl⟩ := Activation.place_mem_ok hd
    obtain ⟨hholds, rfl, rfl⟩ := Activation.write_memory_ok hw
    have hget : t.current.temps[u]? = some v := by
      unfold Activation.eval at hv'
      split at hv'
      · rename_i hget
        rw [hget, Except.ok.inj hv']
      · cases hv'
    exact h.assigned hrun hholds (h.held_current path hshape.frame u b v hm ha hget) (harmed rfl rfl)
  | intrinsic =>
    cases hstm
    cases hc
  | exp hx => cases hstm
  | cjump => cases hstm
  | jump => cases hstm
  | label => cases hstm

lemma move_saveFp (h : t.Follows At top m) (htop : top + 8 < wordBound) {g : Frame}
    (hg : g.Sized) {w : Word} {d : Destination}
    (hs : t.current.routine.code[t.current.pc]? = some (saveFp g.oldFp))
    (hd : t.current.place m (.mem (.binop .sub (.name .stackPointer) (.const (.ofInt g.oldFp)))) = .ok d)
    (hv : t.current.eval m (.name .framePointer) = .ok w)
    (hw : t.current.advance.write w d m = .ok a m') :
    Follows At top { t with current := a } m' := by
  obtain ⟨hrun, -⟩ := Array.getElem?_eq_some_iff.mp hs
  obtain ⟨h8, hlarge⟩ := hg.oldFp_bounds
  have hbound := wordBound_eq
  have hnonneg := h.nonneg
  have hle := h.stacked.sp_le_top top
  rw [← h.sp] at hnonneg hle
  rw [Activation.place_saveFp (by omega) (by omega)] at hd
  obtain rfl := Except.ok.inj hd
  obtain rfl := Except.ok.inj hv
  obtain ⟨hholds, rfl, rfl⟩ := Activation.write_memory_ok hw
  refine h.saved hrun h8 hholds fun k n' h0 hn' hk hs' => ?_
  obtain rfl : t.current.pc = k := Nat.succ.inj hk
  obtain rfl := saveFp_inj (by omega) (by omega) h0 hn' (Option.some.inj (hs.symm.trans hs'))
  rw [Machine.sp_saved, Machine.fp_saved]
  exact Machine.load_saved hholds

lemma move_result (h : t.Follows At top m) (htop : top + 8 < wordBound) {src : Exp}
    {d : Destination} {w : Word}
    (hs : t.current.routine.code[t.current.pc]? = some (.move (.mem (.name .framePointer)) src))
    (hn : t.current.pc + 1 = t.current.routine.code.size)
    (hd : t.current.place m (.mem (.name .framePointer)) = .ok d)
    (hw : t.current.advance.write w d m = .ok a m') :
    Follows At top { t with current := a } m' := by
  obtain ⟨v, hfp, rfl⟩ := Activation.place_mem_ok hd
  obtain rfl := Except.ok.inj hfp
  have hbounds : Frame.sp top (frames t.activations) ≤ Frame.sp top (frames t.callers) ∧
      Frame.sp top (frames t.callers) ≤ top := h.stacked.sp_bounds top List.suffix_rfl
  have hnonneg := h.nonneg
  have hword : (Int64.ofInt m.fp).toInt = m.fp := by
    have hfp : m.fp = Frame.sp top (frames t.callers) := h.fp
    rw [hfp]
    exact Word.toInt_ofInt (by omega) (by omega)
  rw [hword] at hw
  obtain ⟨hholds, rfl, rfl⟩ := Activation.write_memory_ok hw
  exact h.returned hn hholds (Activation.armed_of_ne rfl hs fun n he => by cases he)

lemma move (h : t.Follows At top m) (hi : image.Lexical At) (htop : top + 8 < wordBound)
    {dst src : Exp} {d : Destination} {w : Word}
    (hs : t.current.routine.code[t.current.pc]? = some (.move dst src)) (hc : src.isCall = false)
    (hd : t.current.place m dst = .ok d) (hv : t.current.eval m src = .ok w)
    (hw : t.current.advance.write w d m = .ok a m') :
    Follows At top { t with current := a } m' := by
  obtain ⟨path, hshape⟩ := h.shaped_current
  have hplace := hshape.place hs
  generalize hstm : Stm.move dst src = s at hplace
  cases hplace with
  | plain hp hn => exact h.move_plain hi htop hshape (hstm ▸ hp) hs hc hd hv hw
  | @save n l args g outer u hsite hn =>
    obtain ⟨rfl, rfl⟩ := Stm.move.inj hstm
    obtain ⟨i, hg⟩ := hsite.callee
    rw [hsite.oldFp] at hs hd
    exact h.move_saveFp htop (hi.sized g _ hg) hs hd hv hw
  | call hsite hk hb hn =>
    cases hstm
    cases hc
  | last hv' hn =>
    obtain ⟨rfl, rfl⟩ := Stm.move.inj hstm
    exact h.move_result htop hs hn hd hw

lemma invoked (h : t.Follows At top m) {f : Label} {args : List Exp} {d : Destination}
    (hv : t.current.Invokes m f args d) :
    ∃ path u, t.current.routine.Shaped At path ∧ d = .temp u ∧
      t.current.routine.code[t.current.pc]? = some (.move (.temp u) (.call f args)) ∧
      t.current.pc + 1 < t.current.routine.code.size ∧
      ((∃ i : Intrinsic, f = i.label) ∨ ∃ k n g outer,
        CallSite At path t.current.routine.frame n f args g outer ∧ t.current.pc = k + 1 ∧
          t.current.routine.code[k]? = some (saveFp n)) := by
  obtain ⟨path, hshape⟩ := h.shaped_current
  rcases hv with ⟨hs, -⟩ | ⟨dst, hs, hd⟩
  · have hplace := hshape.place hs
    generalize hstm : Stm.exp (.call f args) = s at hplace
    cases hplace with
    | plain hp hn =>
      cases hp with
      | exp hx =>
        cases hstm
        cases hx
      | _ => cases hstm
    | save => cases hstm
    | call => cases hstm
    | last => cases hstm
  · have hplace := hshape.place hs
    generalize hstm : Stm.move dst (.call f args) = s at hplace
    cases hplace with
    | plain hp hn =>
      cases hp with
      | temp hx =>
        cases hstm
        cases hx
      | cell ha hx =>
        cases hstm
        cases hx
      | held ha hm hx =>
        cases hstm
        cases hx
      | @intrinsic u i args' =>
        cases hstm
        exact ⟨path, u, hshape, (Except.ok.inj hd).symm, hs, hn, .inl ⟨i, rfl⟩⟩
      | _ => cases hstm
    | save => cases hstm
    | @call n l args' g outer u k hsite hk hb hn =>
      cases hstm
      exact ⟨path, u, hshape, (Except.ok.inj hd).symm, hs, hn, .inr ⟨k, n, g, outer, hsite, hk, hb⟩⟩
    | last hv hn =>
      cases hstm
      cases hv

lemma step (h : t.Follows At top m) (hi : image.Lexical At) (htop : top + 8 < wordBound)
    (hs : t.current.Steps image m (.next a) m') : Follows At top { t with current := a } m' := by
  have hrun : ∀ {s : Stm}, t.current.routine.code[t.current.pc]? = some s →
      t.current.pc < t.current.routine.code.size :=
    fun hs => (Array.getElem?_eq_some_iff.mp hs).1
  cases hs with
  | move hs hc hd hv hw => exact h.move hi htop hs hc hd hv hw
  | exp hs hc =>
    exact h.quiet (hrun hs) rfl rfl .refl (Activation.armed_of_ne rfl hs fun n he => by cases he)
      h.held_current
  | label hs =>
    exact h.quiet (hrun hs) rfl rfl .refl (Activation.armed_of_ne rfl hs fun n he => by cases he)
      h.held_current
  | @goto s l b hs hl hg =>
    obtain ⟨pc, hpc, rfl⟩ := Activation.goto_ok.mp hg
    obtain ⟨path, hshape⟩ := h.shaped_current
    refine h.quiet (hrun hs) rfl rfl .refl (fun k n h0 hn hk hsave => ?_) h.held_current
    -- a call, not a label, stands after a saved frame pointer
    have hlabel := hshape.targets l pc hpc
    obtain rfl : pc = k + 1 := hk
    obtain ⟨u, f, args, he⟩ := hshape.call_of_saveFp hsave hlabel
    cases he
  | intrinsic hv he hl hx hw =>
    obtain ⟨path, u, hshape, rfl, hs, -, hf⟩ := h.invoked hv
    obtain ⟨rfl, rfl⟩ := Activation.write_temp_ok hw
    refine h.quiet (hrun hs) rfl rfl (Intrinsic.same_of_exec hx)
      (Activation.armed_of_ne rfl hs fun n he => by cases he) ?_
    refine h.held_current.insert rfl rfl hshape (Array.mem_toList_iff.mpr
      (Array.mem_of_getElem? hs)) fun path' hat hcell => ?_
    exact absurd hcell.isPure nofun
  | redraw hv hl hx =>
    obtain ⟨path, u, hshape, rfl, hs, -, hf⟩ := h.invoked hv
    have hsame := Intrinsic.same_of_exec hx
    exact h.quiet (hrun hs) rfl rfl hsame (h.armed.of_same hsame) h.held_current

end Thread.Follows

end BlockLang
