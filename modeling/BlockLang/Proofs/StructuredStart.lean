import BlockLang.Proofs.Globals
import BlockLang.Proofs.ThreadSteps
import Mathlib.Data.List.Nodup

namespace BlockLang

open Source Code Lowering

lemma Routine.enter_ok {r : Routine} {w : Word} {d : Destination} {m : Machine}
    (hm : m.memory.holds m.sp 8 = true) (hs : m.memory.staticEnd ≤ m.sp - r.frame.size) :
    r.enter [w] d m = .ok { routine := r, destination := d }
      { m with memory := m.memory.write m.sp w.toBytes, fp := m.sp, sp := m.sp - r.frame.size } := by
  have hstore := Machine.store_of_holds (w := w) hm
  have hover : ¬m.sp - r.frame.size < (m.memory.write m.sp w.toBytes).staticEnd := by
    rw [Memory.staticEnd_write]
    omega
  unfold Routine.enter
  refine Exec.bind_ok.mpr ⟨m, m, rfl, Exec.bind_ok.mpr ⟨(), _,
    Exec.bind_ok.mpr ⟨(), _, hstore, rfl⟩, ?_⟩⟩
  generalize m.memory.write m.sp w.toBytes = memory at *
  refine Exec.bind_ok.mpr ⟨(), _, rfl, Exec.bind_ok.mpr ⟨_, _, rfl, ?_⟩⟩
  rw [if_neg hover]
  rfl

lemma Image.start_ok {image : Image} {r : Routine} {m : Machine}
    (hr : image.routines[image.entry]? = some r) (hp : r.frame.params ≤ wordSize)
    (hm : m.memory.holds (m.sp - r.frame.oldFp) 8 = true) (hm' : m.memory.holds m.sp 8 = true)
    (hs : m.memory.staticEnd ≤ m.sp - r.frame.size) :
    image.start m = .ok ⟨{ routine := r, destination := .discard }, []⟩
      { m with
        memory := (m.memory.write (m.sp - r.frame.oldFp) (Word.toBytes (.ofInt m.fp))).write m.sp
          (Word.toBytes 0)
        fp := m.sp
        sp := m.sp - r.frame.size } := by
  have hstore := Machine.store_of_holds (w := Int64.ofInt m.fp) hm
  have hend := Memory.staticEnd_write m.memory (m.sp - r.frame.oldFp) (Word.toBytes (.ofInt m.fp))
  have hhold := Memory.holds_write m.memory (m.sp - r.frame.oldFp) m.sp
    (Word.toBytes (.ofInt m.fp)) 8
  unfold Image.start
  rw [hr]
  dsimp only
  rw [if_neg (Int.not_lt.mpr hp)]
  refine Exec.bind_ok.mpr ⟨m, m, rfl, Exec.bind_ok.mpr ⟨(), _, hstore, ?_⟩⟩
  generalize m.memory.write (m.sp - r.frame.oldFp) (Word.toBytes (.ofInt m.fp)) = memory at *
  refine Exec.bind_ok.mpr ⟨_, _, Routine.enter_ok (hhold.trans hm') ?_, rfl⟩
  rw [hend]
  exact hs

lemma Routine.leave_ok {r : Routine} {m : Machine} {w : Word}
    (hm : m.memory.holds (m.fp - r.frame.oldFp) 8 = true) (hw : m.memory.load m.fp = .ok w) :
    ∃ fp, r.leave m = .ok w { m with fp, sp := m.fp } := by
  obtain ⟨v, hv⟩ : ∃ v, m.memory.load (m.fp - r.frame.oldFp) = .ok v :=
    ⟨_, Memory.load_of_holds hm⟩
  refine ⟨v.toInt, ?_⟩
  unfold Routine.leave
  exact Exec.bind_ok.mpr ⟨(), _, rfl, Exec.bind_ok.mpr ⟨_, _, Machine.read_ok hv,
    Exec.bind_ok.mpr ⟨(), _, rfl, Machine.read_ok hw⟩⟩⟩

namespace Source

lemma Def.nodup_of_idsAll {ds : List Def} (h : (Def.idsAll ds).Nodup) : ds.Nodup := by
  induction ds with
  | nil => exact List.nodup_nil
  | cons d ds ih =>
    obtain ⟨-, hds, hdis⟩ := List.nodup_append.mp h
    refine List.nodup_cons.mpr ⟨fun hm => ?_, ih hds⟩
    have hd : d.node.id ∈ d.ids := by cases d <;> exact List.mem_cons_self
    exact hdis _ hd _ ((Def.ids_sublist hm).subset hd) rfl

end Source

namespace Source.Program.Structured

variable {p : Program} {main : Node} {result : TypeExpr} {body : Expr}
variable {layout : Layout} {frame : Frame} {before after : List Def} {size : Nat}

structure Fits (p : Program) (main : Node) (result : TypeExpr) (body : Expr) (layout : Layout)
    (frame : Frame) (before after : List Def) (size : Nat) : Prop where
  program : p.Structured main result body
  layout : MainLayout p main body layout frame
  split : p.defs.definitions = before ++ .func main "main" [] result body :: after
  before_all : before.all p.tables.isVariable = true
  after_all : after.all p.tables.isVariable = true
  room : 8 * ((before ++ after).length + 1 : Int) + frame.size + 8 ≤ size
  small : size < wordBound

namespace Fits

variable (F : Fits p main result body layout frame before after size)

include F

lemma mem_globals {d : Def} (h : d ∈ before ++ after) :
    d ∈ p.defs.definitions ∧ p.tables.isVariable d = true := by
  rw [F.split]
  rcases List.mem_append.mp h with h | h
  · exact ⟨List.mem_append_left _ h, List.all_eq_true.mp F.before_all d h⟩
  · exact ⟨List.mem_append_right _ (List.mem_cons_of_mem _ h),
      List.all_eq_true.mp F.after_all d h⟩

lemma labels_nodup : ((before ++ after).map fun d => Label.named d.name).Nodup := by
  have hn := (List.nodup_cons.mp F.program.unique).2
  have hds : (before ++ after).Nodup := by
    have hall := Def.nodup_of_idsAll hn
    rw [F.split] at hall
    exact hall.sublist ((List.Sublist.refl before).append (List.sublist_cons_self _ after))
  refine List.Nodup.map_on (fun d hd d' hd' he => ?_) hds
  obtain ⟨hm, hv⟩ := F.mem_globals hd
  obtain ⟨hm', hv'⟩ := F.mem_globals hd'
  exact F.program.names d hm d' hm' hv hv' (Label.named.inj he)

lemma frame_size : 0 ≤ frame.locals ∧ 0 ≤ frame.outgoing ∧
    frame.size = frame.locals + 8 + frame.outgoing ∧ frame.oldFp = frame.locals + 8 :=
  ⟨F.layout.locals_nonneg, F.layout.outgoing_nonneg, rfl, rfl⟩

lemma global_address {d : Def} (h : d ∈ before ++ after) :
    ∃ i : Nat, i < (before ++ after).length ∧ (before ++ after)[i]? = some d ∧
      (loadedMemory size (before ++ after)).labels[Label.named d.name]? = some (8 + 8 * (i : Int)) := by
  obtain ⟨i, hi⟩ := List.mem_iff_getElem?.mp h
  refine ⟨i, (List.getElem?_eq_some_iff.mp hi).1, hi, ?_⟩
  have hl : ((before ++ after).map fun d => Label.named d.name)[i]? = some (.named d.name) := by
    rw [List.getElem?_map, hi]
    rfl
  exact Memory.labels_reserve F.labels_nodup hl

end Fits

def cellAddress (layout : Layout) (globals : List Def) (size : Nat) (d : NodeId) : Int :=
  match layout.accesses[d]? with
  | some (.global _ label) => ((loadedMemory size globals).labels[label]?).getD 0
  | some (.stack _ offset _) | some (.param _ offset _) => size - wordSize + offset
  | none => 0

inductive IsCell (body : Expr) (layout : Layout) (frame : Frame) (globals : List Def) (size : Nat)
    (d : NodeId) (address : Int) : Prop
  | global (e : Def) (i : Nat) (node : e.node.id = d) (getElem : globals[i]? = some e)
      (lt : i < globals.length)
      (access : layout.accesses[d]? = some (.global wordSize (.named e.name)))
      (label : (loadedMemory size globals).labels[Label.named e.name]? = some (8 + 8 * (i : Int)))
      (address_eq : address = 8 + 8 * i)
  | slot (offset : Int) (mem : d ∈ body.variables false)
      (access : layout.accesses[d]? = some (.stack wordSize offset 1)) (le : 8 ≤ -offset)
      (le_locals : -offset ≤ frame.locals) (address_eq : address = size - 8 + offset)

namespace Fits

variable (F : Fits p main result body layout frame before after size)

include F

lemma isCell {d : NodeId} (h : d ∈ p.variables body) :
    IsCell body layout frame (before ++ after) size d
      (cellAddress layout (before ++ after) size d) := by
  rcases List.mem_append.mp h with h | h
  · obtain ⟨n, x, type, hm, rfl⟩ := Def.exists_var_of_mem h
    have hg : Def.var n x type ∈ before ++ after := by
      rw [F.split] at hm
      simp only [List.mem_append, List.mem_cons, reduceCtorEq, false_or] at hm
      exact List.mem_append.mpr hm
    obtain ⟨i, hi, he, hl⟩ := F.global_address hg
    have ha := F.layout.globals n x type hm
    refine .global (.var n x type) i rfl he hi ha hl ?_
    simp only [Def.name] at hl
    simp only [cellAddress, ha, hl, Option.getD_some]
  · obtain ⟨offset, ha, hlo, hhi⟩ := F.layout.locals d h
    refine .slot offset h ha hlo hhi ?_
    simp only [cellAddress, ha]
    rfl

lemma cell_bounds {d : NodeId} (h : d ∈ p.variables body) :
    8 ≤ cellAddress layout (before ++ after) size d ∧
      cellAddress layout (before ++ after) size d + 8 ≤ size - 8 := by
  obtain ⟨h0, h0', hs, -⟩ := F.frame_size
  have hroom := F.room
  cases F.isCell h with
  | global e i _ _ hi _ _ ha =>
    rw [ha]
    omega
  | slot offset _ _ hlo hhi ha =>
    rw [ha]
    omega

lemma toInt_cellAddress {d : NodeId} (h : d ∈ p.variables body) :
    (Int64.ofInt (cellAddress layout (before ++ after) size d)).toInt =
      cellAddress layout (before ++ after) size d := by
  obtain ⟨hlo, hhi⟩ := F.cell_bounds h
  have hs := F.small
  exact Word.toInt_ofInt (by omega) (by omega)

lemma cell_clear {d d' : NodeId} (h : d ∈ p.variables body) (h' : d' ∈ p.variables body)
    (hne : d ≠ d') : Clear (cellAddress layout (before ++ after) size d)
      (cellAddress layout (before ++ after) size d') := by
  obtain ⟨h0, h0', hs, -⟩ := F.frame_size
  have hroom := F.room
  unfold Clear
  cases F.isCell h with
  | global e i hn hg hi _ _ ha =>
    cases F.isCell h' with
    | global e' i' hn' hg' hi' _ _ ha' =>
      have hii : i ≠ i' := by
        rintro rfl
        obtain rfl := Option.some.inj (hg.symm.trans hg')
        exact hne (hn.symm.trans hn')
      rw [ha, ha']
      omega
    | slot offset _ _ hlo hhi ha' =>
      rw [ha, ha']
      omega
  | slot offset hm hacc hlo hhi ha =>
    cases F.isCell h' with
    | global e' i' _ _ hi' _ _ ha' =>
      rw [ha, ha']
      omega
    | slot offset' hm' hacc' hlo' hhi' ha' =>
      have hc := F.layout.apart d hm d' hm' hne offset offset' hacc hacc'
      unfold Clear at hc
      rw [ha, ha']
      omega

lemma saved_clear {d : NodeId} (h : d ∈ p.variables body) :
    Clear (size - 8 - frame.oldFp) (cellAddress layout (before ++ after) size d) := by
  obtain ⟨h0, h0', hs, hold⟩ := F.frame_size
  have hroom := F.room
  unfold Clear
  cases F.isCell h with
  | global e i _ _ hi _ _ ha =>
    rw [ha, hold]
    omega
  | slot offset _ _ hlo hhi ha =>
    rw [ha, hold]
    omega

lemma eval_cellAddress {d : NodeId} (h : d ∈ p.variables body) {access : Access}
    (ha : layout.accesses[d]? = some access) (a : Activation) (m : Machine)
    (hfp : m.fp = size - 8) (hl : m.memory.labels = (loadedMemory size (before ++ after)).labels) :
    a.eval m (addressOf 1 access) =
      .ok (.ofInt (cellAddress layout (before ++ after) size d)) := by
  cases F.isCell h with
  | global e i hn hg hi hacc hlabel haddr =>
    obtain rfl := Option.some.inj (ha.symm.trans hacc)
    obtain ⟨hm, hv⟩ := F.mem_globals (List.mem_iff_getElem?.mpr ⟨i, hg⟩)
    obtain ⟨hnf, hns⟩ := F.program.registers e hm hv
    simp only [addressOf, Activation.eval, Machine.nameValue, hnf, hns, if_false,
      Memory.addressOf?, hl, hlabel, haddr]
  | slot offset hm hacc hlo hhi haddr =>
    obtain rfl := Option.some.inj (ha.symm.trans hacc)
    have hne : offset ≠ 0 := by omega
    simp only [addressOf, Nat.sub_self, Exp.staticLink, Exp.offset, if_neg hne, Activation.eval,
      Machine.nameValue, if_true, Op.apply, bind, Except.bind, hfp, haddr, Int64.ofInt_add]

end Fits

def Fits.placement (F : Fits p main result body layout frame before after size) :
    Placement (layout.scope p.tables) (p.variables body) where
  fp := size - 8
  labels := (loadedMemory size (before ++ after)).labels
  size := size
  address d := .ofInt (cellAddress layout (before ++ after) size d)
  eval_address _ hd _ ha a m hfp hl := F.eval_cellAddress hd ha a m hfp hl
  held d hd := by
    obtain ⟨hlo, hhi⟩ := F.cell_bounds hd
    rw [F.toInt_cellAddress hd]
    omega
  clear d hd d' hd' hne := by
    rw [F.toInt_cellAddress hd, F.toInt_cellAddress hd']
    exact F.cell_clear hd hd' hne

def startMemory (frame : Frame) (globals : List Def) (size : Nat) : Memory :=
  ((loadedMemory size globals).write (size - 8 - frame.oldFp)
    (Word.toBytes (.ofInt (size - 8)))).write (size - 8) (Word.toBytes 0)

lemma size_loadedMemory (globals : List Def) : (loadedMemory size globals).size = size := by
  simp [loadedMemory, Memory.size, Memory.new]

@[simp] lemma size_startMemory (globals : List Def) :
    (startMemory frame globals size).size = size := by
  simp [startMemory, size_loadedMemory]

@[simp] lemma labels_startMemory (globals : List Def) :
    (startMemory frame globals size).labels = (loadedMemory size globals).labels := by
  simp [startMemory]

lemma load_loadedMemory {globals : List Def} {a : Int} (h0 : 0 ≤ a) (h : a + 8 ≤ size) :
    (loadedMemory size globals).load a = .ok 0 := by
  rw [loadedMemory, Memory.load_reserve]
  refine Memory.load_new (Memory.holds_iff.mpr ⟨h0, ?_⟩)
  simpa [Memory.size, Memory.new] using h

namespace Fits

variable (F : Fits p main result body layout frame before after size)

include F

lemma load_startMemory {d : NodeId} (h : d ∈ p.variables body) :
    (startMemory frame (before ++ after) size).load
      (cellAddress layout (before ++ after) size d) = .ok 0 := by
  obtain ⟨h0, h0', hs, hold⟩ := F.frame_size
  have hroom := F.room
  obtain ⟨hlo, hhi⟩ := F.cell_bounds h
  have hclear : Clear (size - 8) (cellAddress layout (before ++ after) size d) :=
    .inr (by omega)
  rw [startMemory, Memory.load_write_of_clear (by omega) hclear,
    Memory.load_write_of_clear (by omega) (F.saved_clear h)]
  exact load_loadedMemory (by omega) (by omega)

lemma start {routine : Routine} (hf : routine.frame = frame) (generator : Generator)
    (console : Option Console) :
    (Image.mk ((∅ : Std.TreeMap Label Routine).insert frame.label routine) (.named "main")).start
        ⟨loadedMemory size (before ++ after), size - 8, size - 8, generator, console⟩ =
      .ok ⟨{ routine, destination := .discard }, []⟩
        ⟨startMemory frame (before ++ after) size, size - 8, size - 8 - frame.size, generator,
          console⟩ := by
  obtain ⟨h0, h0', hs, hold⟩ := F.frame_size
  have hroom := F.room
  have hlookup : ((∅ : Std.TreeMap Label Routine).insert frame.label routine)[Label.named "main"]? =
      some routine := by
    rw [F.layout.label]
    simp
  subst hf
  have hhold : ∀ a : Int, 0 ≤ a → a + 8 ≤ size →
      (loadedMemory size (before ++ after)).holds a 8 = true :=
    fun a ha0 ha => Memory.holds_iff.mpr ⟨ha0, by rw [size_loadedMemory]; exact ha⟩
  have hend : (loadedMemory size (before ++ after)).staticEnd =
      8 + 8 * ((before ++ after).length : Int) := by
    rw [loadedMemory, Memory.staticEnd_reserve, List.length_map]
    rfl
  unfold startMemory
  generalize loadedMemory size (before ++ after) = memory at *
  have hsaved := hhold (size - 8 - routine.frame.oldFp) (by omega) (by omega)
  have htop := hhold (size - 8) (by omega) (by omega)
  have hstack : memory.staticEnd ≤ size - 8 - routine.frame.size := by omega
  exact Image.start_ok hlookup (Int.le_of_eq F.layout.params) hsaved htop hstack

end Fits

end Source.Program.Structured

end BlockLang
