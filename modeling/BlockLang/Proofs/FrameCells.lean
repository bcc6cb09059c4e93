import BlockLang.Proofs.Agreement
import BlockLang.Proofs.Callees
import BlockLang.Proofs.FrameLayout
import Mathlib.Data.List.Perm.Subperm

/-! Programs without arrays: every variable is one word inside the frame of its function, and every
argument is one word in the outgoing area of the caller. -/

namespace BlockLang

open Source

def Ty.isAtomic : Ty → Bool
  | .int | .log | .str => true
  | .void | .array _ _ | .function _ _ => false

lemma Ty.size_of_isAtomic {type : Ty} (h : type.isAtomic = true) :
    type.size = 8 ∧ type.paramSize = 8 := by
  cases type with
  | int | log | str => exact ⟨rfl, rfl⟩
  | void | array | function => cases h

namespace Source

def TypeExpr.scalar? (tables : Tables) : TypeExpr → Option Ty
  | .atom _ a => some a.type
  | .array _ _ _ => none
  | .name n _ => tables.types[n.id]?.filter Ty.isAtomic

lemma TypeExpr.isAtomic_of_scalar? {tables : Tables} {t : TypeExpr} {type : Ty}
    (h : t.scalar? tables = some type) : type.isAtomic = true := by
  cases t with
  | array n size t => cases h
  | name n x => exact (Option.filter_eq_some_iff.mp h).2
  | atom n a =>
    obtain rfl := Option.some.inj h
    cases a <;> rfl

namespace Program

def declares (p : Program) (n : Node) (t : TypeExpr) : Bool :=
  (t.scalar? p.tables).isSome && p.tables.types[n.id]? == t.scalar? p.tables

def isScalar (p : Program) (o : Occurrence) : Bool :=
  match o.item with
  | .expr (.binary _ .index _ _) => false
  | .expr e => !p.tables.types[e.node.id]?.any Ty.isArray
  | .defn (.var n _ t) => p.declares n t
  | .defn (.func _ _ ps _ _) => ps.all fun q => p.declares q.node q.type
  | .defn (.type _ _ _) => true

/-- A function is called with a value for each of its parameters. Arguments without a value are stored
past the outgoing area of the caller, see `void_argument_overwrites_frame_pointer`. -/
def isApplied (p : Program) (o : Occurrence) : Bool :=
  match o.item with
  | .expr (.call n _ args) => p.tables.bindings[n.id]?.all fun d =>
    args.all (fun e => p.tables.types[e.node.id]? != some .void) &&
      p.occurrences.all fun o' =>
        match o'.item with
        | .defn (.func n' _ ps _ _) => n'.id != d || ps.length == args.length
        | _ => true
  | _ => true

def leavesRegisters (p : Program) : Bool :=
  p.defs.definitions.all fun
    | .var _ x _ => Label.named x != .framePointer && Label.named x != .stackPointer
    | _ => true

/-- Programs without arrays whose tables are those of their declarations. -/
structure Regular (p : Program) : Prop where
  unique : p.ids.Nodup
  visible : p.occurrences.all p.isScoped = true
  named : p.NamedApart
  registers : p.leavesRegisters = true
  scalar : p.occurrences.all p.isScalar = true
  applied : p.occurrences.all p.isApplied = true

instance (p : Program) : Decidable p.Regular :=
  decidable_of_iff (p.ids.Nodup ∧ p.occurrences.all p.isScoped = true ∧ p.NamedApart ∧
    p.leavesRegisters = true ∧ p.occurrences.all p.isScalar = true ∧
    p.occurrences.all p.isApplied = true)
    ⟨fun ⟨h₁, h₂, h₃, h₄, h₅, h₆⟩ => ⟨h₁, h₂, h₃, h₄, h₅, h₆⟩,
      fun ⟨h₁, h₂, h₃, h₄, h₅, h₆⟩ => ⟨h₁, h₂, h₃, h₄, h₅, h₆⟩⟩

lemma type_of_declares {p : Program} {n : Node} {t : TypeExpr} (h : p.declares n t = true) {type : Ty}
    (ht : p.tables.types[n.id]? = some type) : type.size = 8 ∧ type.paramSize = 8 := by
  simp only [declares, Bool.and_eq_true, beq_iff_eq] at h
  exact Ty.size_of_isAtomic (TypeExpr.isAtomic_of_scalar? (h.2.symm.trans ht))

end Program

lemma Def.mem_body (d : Def) : ∀ (start : List NodeId) {o : Occurrence}, o ∈ d.occurrences start →
    o = ⟨start, .defn d⟩ ∨ ∃ outer n x ps t b, o.outer = n.id :: outer ∧
      ⟨outer, .defn (.func n x ps t b)⟩ ∈ d.occurrences start ∧ o.item ∈ b.items := by
  induction d using Def.nested with
  | h d ih =>
  intro start o ho
  cases d with
  | var n x t => exact .inl (List.mem_singleton.mp ho)
  | type n x t => exact .inl (List.mem_singleton.mp ho)
  | func n x ps t b =>
    have hself : ⟨start, .defn (.func n x ps t b)⟩ ∈ (Def.func n x ps t b).occurrences start :=
      List.mem_append_right _ (List.mem_singleton_self _)
    rw [Def.occurrences, List.mem_append, List.mem_singleton] at ho
    rcases ho with ho | ho
    · right
      rw [Expr.occurrences_eq, List.mem_flatMap] at ho
      obtain ⟨item, hitem, ho⟩ := ho
      cases item with
      | expr e =>
        obtain rfl := List.mem_singleton.mp ho
        exact ⟨start, n, x, ps, t, b, rfl, hself, hitem⟩
      | defn d' =>
        rcases ih d' hitem (n.id :: start) ho with rfl | ⟨outer, n', y, ps', t', b', he, hf, hi⟩
        · exact ⟨start, n, x, ps, t, b, rfl, hself, hitem⟩
        · refine ⟨outer, n', y, ps', t', b', he, ?_, hi⟩
          exact List.mem_append_left _ (Expr.mem_occurrences hitem hf)
    · exact .inl ho

lemma length_locals_le (is : List Item) :
    (is.flatMap Item.locals).length ≤ (is.flatMap Item.ids).length := by
  induction is with
  | nil => exact Nat.le_refl _
  | cons i is ih =>
    have hi : i.locals.length ≤ i.ids.length := by
      cases i with
      | expr e => exact Nat.zero_le _
      | defn d =>
        cases d with
        | var n x t => exact Nat.succ_le_succ (Nat.zero_le _)
        | func n x ps t b => exact Nat.zero_le _
        | type n x t => exact Nat.zero_le _
    rw [List.flatMap_cons, List.flatMap_cons, List.length_append, List.length_append]
    omega

lemma Expr.mem_variables {b : Expr} {i : NodeId} :
    i ∈ b.variables false ↔ ∃ n x t, .defn (.var n x t) ∈ b.items ∧ n.id = i := by
  rw [← b.locals_items, List.mem_flatMap]
  constructor
  · rintro ⟨item, hm, hi⟩
    cases item with
    | expr e => cases hi
    | defn d =>
      cases d with
      | var n x t => exact ⟨n, x, t, hm, (List.mem_singleton.mp hi).symm⟩
      | func n x ps t b => cases hi
      | type n x t => cases hi
  · rintro ⟨n, x, t, hm, rfl⟩
    exact ⟨_, hm, List.mem_singleton_self _⟩

namespace Program

variable {p : Program}

lemma mem_body {i : NodeId} {outer : List NodeId} {item : Item}
    (ho : ⟨i :: outer, item⟩ ∈ p.occurrences) :
    ∃ n x ps t b, n.id = i ∧ ⟨outer, .defn (.func n x ps t b)⟩ ∈ p.occurrences ∧ item ∈ b.items := by
  rw [Program.occurrences, Def.occurrencesAll_eq, List.mem_flatMap] at ho
  obtain ⟨d, hd, ho⟩ := ho
  rcases d.mem_body [] ho with he | ⟨outer', n, x, ps, t, b, he, hf, hi⟩
  · cases congrArg Occurrence.outer he
  · obtain ⟨rfl, rfl⟩ := List.cons.inj he
    refine ⟨n, x, ps, t, b, rfl, ?_, hi⟩
    rw [Program.occurrences, Def.occurrencesAll_eq]
    exact List.mem_flatMap.mpr ⟨d, hd, hf⟩

lemma eq_of_id (hn : p.ids.Nodup) {o o' : Occurrence} (ho : o ∈ p.occurrences)
    (ho' : o' ∈ p.occurrences) (h : o.id = o'.id) : o = o' :=
  List.inj_on_of_nodup_map (p.nodup_numbers hn) ho ho' h

end Program

end Source

lemma Ident.length_le_of_nodup {role : Role} {is : List (Ident role)} (h : is.Nodup) :
    is.length ≤ UInt32.size := by
  have hn : (is.map Ident.toNat).Nodup := h.map fun i j he => Ident.toNat_inj.mp he
  have hs : is.map Ident.toNat ⊆ List.range UInt32.size := by
    intro k hk
    obtain ⟨i, -, rfl⟩ := List.mem_map.mp hk
    exact List.mem_range.mpr i.toNat_lt
  have hle := (hn.subperm hs).length_le
  rwa [List.length_map, List.length_range] at hle

structure Source.Program.Framed (p : Program) (l : Layout) (outer : List NodeId) (ps : List Param)
    (b : Expr) (f : Frame) : Prop where
  level : f.level = outer.length + 1
  params : f.params = 8 + 8 * ps.length
  locals : 0 ≤ f.locals ∧ f.locals ≤ 8 * UInt32.size
  outgoing : 0 ≤ f.outgoing
  var : ∀ n x t, .defn (.var n x t) ∈ b.items →
    ∃ offset, l.accesses[n.id]? = some (.stack 8 offset f.level) ∧ -f.locals ≤ offset ∧
      offset + 8 ≤ 0
  param : ∀ q ∈ ps, ∃ offset, l.accesses[q.node.id]? = some (.param 8 offset f.level) ∧
    8 ≤ offset ∧ offset + 8 ≤ f.params
  call : ∀ n x args, .expr (.call n x args) ∈ b.items →
    ∃ size, Layout.ArgsSize p.tables.types args size ∧ 8 + size ≤ f.outgoing

namespace Source.Program

variable {p : Program} {l : Layout} {outer : List NodeId} {n : Node} {x : String} {ps : List Param}
variable {t : TypeExpr} {b : Expr}

lemma Regular.isScalar (h : p.Regular) {o : Occurrence} (ho : o ∈ p.occurrences) :
    p.isScalar o = true :=
  List.all_eq_true.mp h.scalar o ho

lemma Regular.framed (h : p.Regular) (hl : p.layout = .ok l)
    (ho : ⟨outer, .defn (.func n x ps t b)⟩ ∈ p.occurrences) :
    ∃ f, l.frames[n.id]? = some f ∧ p.Framed l outer ps b f := by
  obtain ⟨hnd, -⟩ := Layout.layout_defn hl h.unique ho
  obtain ⟨f, vts, pts, hf, hlevel, harr, hout⟩ := Layout.layout_arranges hl h.unique ho
  have hnb : b.ids.Nodup :=
    (List.nodup_append.mp (List.nodup_append.mp (List.nodup_cons.mp hnd).2).2.1).2.1
  have hparams : pts.map Ty.paramSize = List.replicate ps.length 8 := by
    have hmap := harr.params.map_eq (g := Ty.paramSize) (s := 8)
    rw [List.length_map] at hmap
    refine hmap fun i hi type ht => ?_
    obtain ⟨q, hq, rfl⟩ := List.mem_map.mp hi
    have hs := h.isScalar ho
    simp only [Program.isScalar, List.all_eq_true] at hs
    exact (type_of_declares (hs q hq) ht).2
  have hsizes : vts.map Ty.size = List.replicate (b.variables false).length 8 := by
    refine harr.vars.map_eq fun i hi type ht => ?_
    obtain ⟨m, y, s, hm, rfl⟩ := Expr.mem_variables.mp hi
    have hs := h.isScalar (mem_occurrences_body ho
      (Expr.mem_occurrences hm (List.mem_singleton_self _)))
    simp only [Program.isScalar] at hs
    exact (type_of_declares hs ht).1
  have hlocals : f.locals = 8 * (b.variables false).length := by
    rw [harr.locals_eq, hsizes, List.sum_replicate, Int.nsmul_eq_mul, Int.mul_comm]
  have hcount : (b.variables false).length ≤ UInt32.size := by
    rw [← b.locals_items]
    exact Nat.le_trans (length_locals_le b.items) (Ident.length_le_of_nodup (Expr.nodup_items hnb))
  have hword : wordSize = 8 := rfl
  have hfp : f.params = 8 + 8 * ps.length := by
    rw [harr.params_eq, hparams, List.sum_replicate, Int.nsmul_eq_mul, Int.mul_comm, hword]
  refine ⟨f, hf, hlevel, hfp, by omega, hout.start_le, fun m y s hm => ?_, fun q hq => ?_, hout.room⟩
  · obtain ⟨i, hi⟩ := List.mem_iff_getElem?.mp (Expr.mem_variables.mpr ⟨m, y, s, hm, rfl⟩)
    have hlt := (List.getElem?_eq_some_iff.mp hi).1
    have hat := harr.localsAt i m.id 8 hi (by simp [hsizes, hlt])
    rw [hsizes, Layout.sum_take_replicate hlt] at hat
    refine ⟨_, hat, ?_, ?_⟩
    · push_cast
      omega
    · push_cast
      omega
  · obtain ⟨k, hk⟩ := List.mem_iff_getElem?.mp hq
    have hlt := (List.getElem?_eq_some_iff.mp hk).1
    have hat := harr.paramsAt k q.node.id 8 (by simp [hk]) (by simp [hparams, hlt])
    rw [hparams, Layout.sum_take_replicate (Nat.le_of_lt hlt)] at hat
    exact ⟨_, hat, by omega, by omega⟩

end Source.Program

end BlockLang
