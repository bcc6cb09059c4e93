import BlockLang.Proofs.CallingConvention
import BlockLang.Proofs.LoweringCases
import BlockLang.Proofs.Simulation
import BlockLang.Proofs.WordArithmetic
import BlockLang.Proofs.Words
import Mathlib.Algebra.BigOperators.Group.List.Lemmas

/-! Elements of arrays. An array stands for the address of its first element, and the elements of
nested arrays follow each other in row-major order. -/

namespace BlockLang

open Source Code Lowering

def Ty.arrayOf (sizes : List UInt64) (atom : Atom) : Ty := sizes.foldr .array atom.type

def Source.Expr.indexed (array : Expr) (indices : List (Node × Expr)) : Expr :=
  indices.foldl (fun e i => .binary i.1 .index e i.2) array

/-- The number of an element among all of them, the last index running fastest. -/
def rowMajor : List Nat → List Nat → Nat
  | _ :: ns, i :: is => i * ns.prod + rowMajor ns is
  | _, _ => 0

lemma rowMajor_lt {ns is : List Nat} (h : List.Forall₂ (· < ·) is ns) :
    rowMajor ns is < ns.prod := by
  induction h with
  | nil => exact Nat.one_pos
  | @cons i n is ns hi _ ih =>
    rw [List.prod_cons, rowMajor]
    calc i * ns.prod + rowMajor ns is < i * ns.prod + ns.prod := by omega
      _ = (i + 1) * ns.prod := (Nat.succ_mul _ _).symm
      _ ≤ n * ns.prod := Nat.mul_le_mul_right _ hi

lemma eq_of_rowMajor_eq {ns is js : List Nat} (hi : List.Forall₂ (· < ·) is ns)
    (hj : List.Forall₂ (· < ·) js ns) (h : rowMajor ns is = rowMajor ns js) : is = js := by
  -- the first index is the quotient by the size of what follows, the others are the remainder
  have hdiv {i r p : Nat} (hr : r < p) : (i * p + r) / p = i := by
    rw [Nat.mul_comm, Nat.mul_add_div (by omega), Nat.div_eq_of_lt hr, Nat.add_zero]
  have hmod {i r p : Nat} (hr : r < p) : (i * p + r) % p = r := by
    rw [Nat.mul_comm, Nat.mul_add_mod, Nat.mod_eq_of_lt hr]
  induction hi generalizing js with
  | nil =>
    cases hj
    rfl
  | @cons i n is ns _ his ih =>
    cases hj with
    | @cons j _ js _ _ hjs =>
      simp only [rowMajor] at h
      have hfirst : i = j := by
        have hquot := congrArg (· / ns.prod) h
        simpa only [hdiv (rowMajor_lt his), hdiv (rowMajor_lt hjs)] using hquot
      have hrest : rowMajor ns is = rowMajor ns js := by
        have hrem := congrArg (· % ns.prod) h
        simpa only [hmod (rowMajor_lt his), hmod (rowMajor_lt hjs)] using hrem
      rw [hfirst, ih hjs hrest]

def Machine.outerFp (m : Machine) : Nat → Except Fault Word
  | 0 => .ok (.ofInt m.fp)
  | k + 1 => do m.memory.load (← m.outerFp k).toInt

namespace Access

def address (level : Nat) (m : Machine) : Access → Except Fault Word
  | .global _ label => m.nameValue label
  | .stack _ offset target | .param _ offset target => do
    return .ofInt ((← m.outerFp (level - target)).toInt + offset)

def base (level : Nat) (m : Machine) : Access → Except Fault Word
  | .global size label => address level m (.global size label)
  | .stack size offset target => address level m (.stack size offset target)
  | .param size offset target => do
    m.memory.load (← address level m (.param size offset target)).toInt

end Access

namespace Activation

variable (a : Activation) (m : Machine)

lemma eval_staticLink (k : Nat) : a.eval m (.staticLink k) = m.outerFp k := by
  induction k with
  | zero => rfl
  | succ k ih => rw [Exp.staticLink, eval, ih, Machine.outerFp]

lemma eval_offset_eq (x : Exp) (n : Int) :
    a.eval m (x.offset n) = (do return .ofInt ((← a.eval m x).toInt + n)) := by
  cases h : a.eval m x with
  | ok w => exact eval_offset (h.trans (congrArg Except.ok (Int64.ofInt_toInt w).symm))
  | error e =>
    unfold Exp.offset
    split
    · exact h
    · rw [eval, h]
      rfl

lemma eval_addressOf (level : Nat) (access : Access) :
    a.eval m (addressOf level access) = access.address level m := by
  cases access with
  | global size label => rfl
  | stack size offset target => rw [addressOf, eval_offset_eq, eval_staticLink, Access.address]
  | param size offset target => rw [addressOf, eval_offset_eq, eval_staticLink, Access.address]

lemma eval_variableValue (type : Ty) (h : type.isArray = true) (level : Nat) (access : Access) :
    a.eval m (variableValue type (addressOf level access) access) = access.base level m := by
  cases access with
  | global size label =>
    rw [variableValue, if_pos h, eval_addressOf, Access.base]
  | stack size offset target =>
    rw [variableValue, if_pos h, eval_addressOf, Access.base]
  | param size offset target => rw [variableValue, eval, eval_addressOf, Access.base]

end Activation

namespace Ty

lemma arrayOf_cons (n : UInt64) (sizes : List UInt64) (atom : Atom) :
    arrayOf (n :: sizes) atom = .array n (arrayOf sizes atom) := rfl

lemma isArray_atom (atom : Atom) : atom.type.isArray = false := by
  cases atom <;> rfl

lemma size_atom (atom : Atom) : atom.type.size = 8 := by
  cases atom <;> rfl

lemma size_arrayOf {sizes : List UInt64} (h : ∀ n ∈ sizes, n.toNat < wordBound)
    (atom : Atom) : (arrayOf sizes atom).size = 8 * ((sizes.map UInt64.toNat).prod : Int) := by
  induction sizes with
  | nil => exact size_atom atom
  | cons n sizes ih =>
    have hn : n.toInt64.toInt = n.toNat := Word.toInt_toInt64 (h n List.mem_cons_self)
    rw [arrayOf_cons, size, hn, ih fun k hk => h k (List.mem_cons_of_mem n hk), List.map_cons,
      List.prod_cons, Int.natCast_mul, Int.mul_left_comm]

end Ty

def elementAddress (atom : Atom) (x : Exp) : List UInt64 → List Exp → Exp
  | _ :: sizes, y :: ys =>
    elementAddress atom
      (.binop .add x (.binop .mul y (.const (.ofInt (Ty.arrayOf sizes atom).size)))) sizes ys
  | _, _ => x

lemma Activation.eval_elementAddress {a : Activation} {m : Machine} (atom : Atom)
    {sizes : List UInt64} (hsizes : ∀ n ∈ sizes, n.toNat < wordBound) {x : Exp} {b : Int}
    (hx : a.eval m x = .ok (.ofInt b)) {ys : List Exp} {is : List Nat}
    (hlen : is.length = sizes.length) (hys : a.evalAll m ys = .ok (is.map Int64.ofNat)) :
    a.eval m (elementAddress atom x sizes ys) =
      .ok (.ofInt (b + 8 * rowMajor (sizes.map UInt64.toNat) is)) := by
  induction sizes generalizing x b ys is with
  | nil =>
    simp only [elementAddress, rowMajor, List.map_nil, hx, Nat.cast_zero, Int.mul_zero, Int.add_zero]
  | cons n sizes ih =>
    obtain ⟨i, is, rfl⟩ := List.exists_cons_of_length_eq_add_one hlen
    cases ys with
    | nil => cases hys
    | cons y ys =>
      obtain ⟨w, ws, hws, hy, hys⟩ := Sim.evalAll_cons_ok_iff.mp hys
      obtain ⟨rfl, rfl⟩ := List.cons.inj hws
      have hrest : ∀ k ∈ sizes, k.toNat < wordBound :=
        fun k hk => hsizes k (List.mem_cons_of_mem n hk)
      have hsize := Ty.size_arrayOf hrest atom
      generalize hp : (sizes.map UInt64.toNat).prod = p at *
      have hx' : a.eval m (.binop .add x (.binop .mul y (.const (.ofInt (Ty.arrayOf sizes atom).size)))) =
          .ok (.ofInt (b + 8 * (i * p))) := by
        rw [Int.mul_left_comm, Int64.ofInt_add, Int64.ofInt_mul, Int64.ofInt_eq_ofNat]
        simp only [eval, hx, hy, hsize, Op.apply, bind, Except.bind]
      rw [elementAddress, ih hrest hx' (by simpa using hlen) hys, List.map_cons, rowMajor, hp]
      push_cast
      rw [Int.mul_add, Int.add_assoc]

def Outside (size : UInt64) (index : Expr) (i : Word) : Prop :=
  ∃ n, index = .literal n (.integer i) ∧ ¬(0 ≤ i.toInt ∧ i.toInt < size.toNat)

lemma badIndex_eq_some_iff {size : UInt64} {index : Expr} {i : Word} :
    badIndex size index = some i ↔ Outside size index i := by
  unfold badIndex Outside
  split
  · rename_i n i'
    have hin : (i' < 0 ∨ size ≤ i'.toUInt64) ↔ ¬(0 ≤ i'.toInt ∧ i'.toInt < size.toNat) := by
      rw [Int64.lt_iff_toInt_lt, UInt64.le_iff_toNat_le, Int64.toInt_zero]
      by_cases h0 : i'.toInt < 0
      · simp only [h0, true_or, true_iff]
        omega
      · have hnat := Word.toNat_toUInt64 i'
        have hlt := i'.toInt_lt
        omega
    rw [Option.ite_none_right_eq_some, hin]
    constructor
    · rintro ⟨h, hi⟩
      obtain rfl := Option.some.inj hi
      exact ⟨n, rfl, h⟩
    · rintro ⟨_, he, h⟩
      obtain ⟨rfl, hi⟩ := Expr.literal.inj he
      obtain rfl := Literal.integer.inj hi
      exact ⟨h, rfl⟩
  · rename_i hne
    simp only [reduceCtorEq, false_iff]
    rintro ⟨n, he, -⟩
    exact hne n i he

lemma badIndex_eq_none {size : UInt64} {index : Expr} (h : ∀ i, ¬Outside size index i) :
    badIndex size index = none :=
  Option.eq_none_iff_forall_ne_some.mpr fun i hi => h i (badIndex_eq_some_iff.mp hi)

def Source.Tables.TypesIndexed (t : Tables) (array : Expr) (indices : List (Node × Expr))
    (sizes : List UInt64) (atom : Atom) : Prop :=
  ∀ j < sizes.length,
    t.types[(array.indexed (indices.take j)).node.id]? = some (.arrayOf (sizes.drop j) atom)

namespace Lowering

variable {scope : Scope} {level : Nat} {st st₁ st' : State} {array : Expr} {atom : Atom}

lemma TypesIndexed.tail {t : Tables} {node : Node} {index : Expr} {indices : List (Node × Expr)}
    {n : UInt64} {sizes : List UInt64}
    (h : t.TypesIndexed array ((node, index) :: indices) (n :: sizes) atom) :
    t.TypesIndexed (.binary node .index array index) indices sizes atom := by
  intro j hj
  exact h (j + 1) (Nat.succ_lt_succ hj)

lemma expr_indexed {indices : List (Node × Expr)} {n : UInt64} {sizes : List UInt64}
    (typed : scope.tables.TypesIndexed array indices (n :: sizes) atom)
    (inside : List.Forall₂ (fun index size => ∀ i, ¬Outside size index.2 i) indices (n :: sizes))
    {x : Exp} (hx : (expr scope level array).run st = .ok (.value x, st₁)) {ys : List Exp}
    (hys : (indices.mapM fun i => valueOf (expr scope level i.2)).run st₁ = .ok (ys, st')) :
    (expr scope level (array.indexed indices)).run st =
      .ok (.value (.mem (elementAddress atom x (n :: sizes) ys)), st') := by
  induction sizes generalizing n array indices x st₁ ys with
  | nil =>
    obtain ⟨⟨node, index⟩, _, hin, hnil, rfl⟩ := List.forall₂_cons_right_iff.mp inside
    obtain rfl := List.forall₂_nil_right_iff.mp hnil
    simp only [List.mapM_cons, List.mapM_nil, run_bind_ok, valueOf_ok, run_pure_ok] at hys
    obtain ⟨_, _, ⟨y, hy, rfl⟩, _, _, ⟨rfl, rfl⟩, rfl, rfl⟩ := hys
    have htype := typed 0 Nat.one_pos
    have hbad := badIndex_eq_none hin
    refine expr_index_ok.mpr ⟨n, atom.type, htype, hbad, .value x, st₁, y, hx, hy, ?_⟩
    rw [element, if_neg (by rw [Ty.isArray_atom]; decide)]
    rfl
  | cons k sizes ih =>
    obtain ⟨⟨node, index⟩, indices, hin, hrest, rfl⟩ := List.forall₂_cons_right_iff.mp inside
    simp only [List.mapM_cons, run_bind_ok, valueOf_ok, run_pure_ok] at hys
    obtain ⟨_, st₂, ⟨y, hy, rfl⟩, ys, _, hys, rfl, rfl⟩ := hys
    have htype := typed 0 (Nat.succ_pos _)
    have hbad := badIndex_eq_none hin
    have hfirst : (expr scope level (.binary node .index array index)).run st =
        .ok (.value (element x y.toExp (.arrayOf (k :: sizes) atom)), st₂) :=
      expr_index_ok.mpr ⟨n, _, htype, hbad, .value x, st₁, y, hx, hy, rfl⟩
    have harray : (Ty.arrayOf (k :: sizes) atom).isArray = true := rfl
    rw [element, if_pos harray] at hfirst
    exact ih (TypesIndexed.tail typed) hrest hfirst hys

section Error

lemma run_bind_error {σ ε α β : Type} {x : StateT σ (Except ε) α} {f : α → StateT σ (Except ε) β}
    {s : σ} {e : ε} :
    (x >>= f).run s = .error e ↔
      x.run s = .error e ∨ ∃ a s', x.run s = .ok (a, s') ∧ (f a).run s' = .error e := by
  rw [StateT.run_bind]
  cases h : x.run s with
  | ok p =>
    obtain ⟨a, s'⟩ := p
    simp [bind, Except.bind]
  | error e' => simp [bind, Except.bind]

variable {node : Node} {index : Expr} {size : UInt64} {type : Ty} {e : Error}

lemma expr_index_outside {i : Word}
    (ht : scope.tables.types[array.node.id]? = some (.array size type))
    (hi : badIndex size index = some i) :
    (expr scope level (.binary node .index array index)).run st =
      .error ⟨.indexOutOfBounds i size, index.node.span⟩ := by
  simp only [expr]
  refine run_bind_error.mpr (.inr ⟨_, st, typeOf_ok.mpr ⟨ht, rfl⟩, ?_⟩)
  simp only [hi]
  exact run_bind_error.mpr (.inl rfl)

lemma expr_index_error (ht : scope.tables.types[array.node.id]? = some (.array size type))
    (hi : badIndex size index = none) (he : (expr scope level array).run st = .error e) :
    (expr scope level (.binary node .index array index)).run st = .error e := by
  have hvalue : (valueOf (expr scope level array)).run st = .error e :=
    run_bind_error.mpr (.inl he)
  simp only [expr]
  refine run_bind_error.mpr (.inr ⟨_, st, typeOf_ok.mpr ⟨ht, rfl⟩, ?_⟩)
  simp only [hi]
  exact run_bind_error.mpr (.inl hvalue)

lemma expr_indexed_error {indices : List (Node × Expr)} {sizes : List UInt64}
    (typed : scope.tables.TypesIndexed array indices sizes atom)
    (inside : List.Forall₂ (fun index size => ∀ i, ¬Outside size index.2 i) indices sizes)
    (he : (expr scope level array).run st = .error e) :
    (expr scope level (array.indexed indices)).run st = .error e := by
  induction inside generalizing array with
  | nil => exact he
  | @cons i size indices sizes hin _ ih =>
    have ht := typed 0 (Nat.succ_pos _)
    exact ih (TypesIndexed.tail typed) (expr_index_error ht (badIndex_eq_none hin) he)

lemma expr_indexed_outside {before after : List (Node × Expr)} {ns ns' : List UInt64} {i : Word}
    (typed : scope.tables.TypesIndexed array (before ++ (node, index) :: after) (ns ++ size :: ns')
      atom)
    (hlen : before.length = ns.length) (hi : Outside size index i)
    (inside : List.Forall₂ (fun index size => ∀ i, ¬Outside size index.2 i) after ns') :
    (expr scope level (array.indexed (before ++ (node, index) :: after))).run st =
      .error ⟨.indexOutOfBounds i size, index.node.span⟩ := by
  induction before generalizing array ns with
  | nil =>
    obtain rfl := List.eq_nil_of_length_eq_zero hlen.symm
    have hfirst : (expr scope level (.binary node .index array index)).run st =
        .error ⟨.indexOutOfBounds i size, index.node.span⟩ :=
      expr_index_outside (typed 0 (Nat.succ_pos _)) (badIndex_eq_some_iff.mpr hi)
    have hrest := expr_indexed_error (TypesIndexed.tail typed) inside hfirst
    exact hrest
  | cons first before ih =>
    obtain ⟨n, ns, rfl⟩ := List.exists_cons_of_length_eq_add_one hlen.symm
    exact ih (TypesIndexed.tail typed) (Nat.succ.inj hlen)

end Error

end Lowering

/-- Indices that are not numbers outside of their arrays lead to the element with their row-major
number, which lies inside the array and apart from the elements with other indices. -/
theorem array_elements_in_row_major_order {scope : Scope} (level : Nat) {n : Node} {x : String}
    {target : NodeId} {access : Access} {indices : List (Node × Expr)} {sizes : List UInt64}
    {atom : Atom} (bound : scope.tables.bindings[n.id]? = some target)
    (placed : scope.accesses[target]? = some access) (reached : inReach level access = true)
    (typed : scope.tables.TypesIndexed (.name n x) indices sizes atom) (nonempty : sizes ≠ []) :
    (∀ st st' ys, List.Forall₂ (fun index size => ∀ i, ¬Outside size index.2 i) indices sizes →
      (indices.mapM fun i => valueOf (expr scope level i.2)).run st = .ok (ys, st') →
      ∃ e, (expr scope level (Expr.indexed (.name n x) indices)).run st = .ok (.value (.mem e), st') ∧
        ∀ (a : Activation) (m : Machine) (base : Word) (is : List Nat),
          access.base level m = .ok base → a.evalAll m ys = .ok (is.map Int64.ofNat) →
          List.Forall₂ (· < ·) is (sizes.map UInt64.toNat) →
          8 * (sizes.map UInt64.toNat).prod < wordBound →
          base.toInt + (Ty.arrayOf sizes atom).size ≤ wordBound →
          ∃ w, a.eval m e = .ok w ∧
            w.toInt = base.toInt + 8 * rowMajor (sizes.map UInt64.toNat) is ∧
            base.toInt ≤ w.toInt ∧ w.toInt + 8 ≤ base.toInt + (Ty.arrayOf sizes atom).size ∧
            ∀ js, List.Forall₂ (· < ·) js (sizes.map UInt64.toNat) → js ≠ is →
              Clear w.toInt (base.toInt + 8 * rowMajor (sizes.map UInt64.toNat) js)) ∧
    ∀ st before node index after ns size ns' i, indices = before ++ (node, index) :: after →
      sizes = ns ++ size :: ns' → before.length = ns.length → Outside size index i →
      List.Forall₂ (fun index size => ∀ i, ¬Outside size index.2 i) after ns' →
      (expr scope level (Expr.indexed (.name n x) indices)).run st =
        .error ⟨.indexOutOfBounds i size, index.node.span⟩ := by
  refine ⟨fun st st' ys inside hys => ?_, ?_⟩
  · obtain ⟨size, sizes, rfl⟩ := List.exists_cons_of_ne_nil nonempty
    have hname : (expr scope level (.name n x)).run st =
        .ok (.value (variableValue (.arrayOf (size :: sizes) atom) (addressOf level access) access),
          st) := expr_name_ok.mpr
      ⟨target, access, _, bound, placed, reached, typed 0 (Nat.succ_pos _), rfl, rfl⟩
    refine ⟨_, expr_indexed typed inside hname hys, fun a m base is hbase his hin hroom hfits => ?_⟩
    have hlt := rowMajor_lt hin
    have hsmall : ∀ k ∈ size :: sizes, k.toNat < wordBound := by
      intro k hk
      have hdvd := List.dvd_prod (List.mem_map_of_mem (f := UInt64.toNat) hk)
      have hle := Nat.le_of_dvd (by omega) hdvd
      omega
    have hvalue := (a.eval_variableValue m (.arrayOf (size :: sizes) atom) rfl level access).trans
      hbase
    rw [← Int64.ofInt_toInt base] at hvalue
    have hlen : is.length = (size :: sizes).length := by
      rw [hin.length_eq, List.length_map]
    have hw := Activation.eval_elementAddress atom hsmall hvalue hlen his
    rw [Ty.size_arrayOf hsmall] at hfits ⊢
    have hbound := wordBound_eq
    have hlow := base.le_toInt
    have hword := Int64.toInt_ofInt_of_le
      (n := base.toInt + 8 * rowMajor ((size :: sizes).map UInt64.toNat) is) (by omega) (by omega)
    refine ⟨_, hw, hword, by omega, by omega, fun js hjs hne => ?_⟩
    have hother : rowMajor ((size :: sizes).map UInt64.toNat) js ≠
        rowMajor ((size :: sizes).map UInt64.toNat) is := fun h => hne (eq_of_rowMajor_eq hjs hin h)
    rw [hword]
    unfold Clear
    omega
  · rintro st before node index after ns size ns' i rfl rfl hlen hi inside
    exact expr_indexed_outside typed hlen hi inside

/-! An array of two rows of three numbers, which a function one level further out has been given. -/

namespace Rows

def scope : Scope where
  tables :=
    { types := ((∅ : NodeTable Ty).insert (.ofNat 1) (.arrayOf [2, 3] .integer)).insert (.ofNat 2)
        (.arrayOf [3] .integer)
      bindings := (∅ : NodeTable NodeId).insert (.ofNat 1) (.ofNat 0) }
  frames := ∅
  accesses := (∅ : NodeTable Access).insert (.ofNat 0) (.param 8 8 1)

def indices (i j : Word) : List (Node × Expr) :=
  [(node 2, number 3 i), (node 4, .literal { node 5 with span := .point 1 5 } (.integer j))]

lemma typed (i j : Word) :
    scope.tables.TypesIndexed (.name (node 1) "a") (indices i j) [2, 3] .integer := by
  intro k hk
  have hrow : scope.tables.types[(node 1).id]? = some (.arrayOf [2, 3] .integer) := by
    decide +kernel
  have hnumber : scope.tables.types[(node 2).id]? = some (.arrayOf [3] .integer) := by
    decide +kernel
  match k, hk with
  | 0, _ => exact hrow
  | 1, _ => exact hnumber

lemma inside : List.Forall₂ (fun index size => ∀ i, ¬Outside size index.2 i) (indices 1 2) [2, 3] := by
  refine .cons ?_ (.cons ?_ .nil)
  · rintro i ⟨n, he, h⟩
    cases he
    exact h (by decide)
  · rintro i ⟨n, he, h⟩
    cases he
    exact h (by decide)

def machine : Machine where
  memory := ((Memory.new 128).write 64 (Word.toBytes 96)).write 104 (Word.toBytes 8)
  fp := 64
  sp := 64
  generator := .ofSeed 0
  console := none

end Rows

theorem array_elements_in_row_major_order_parameter :
    (∃ e st, (expr Rows.scope 2
        (Expr.indexed (.name (node 1) "a") (Rows.indices 1 2))).run { labels := {} } =
          .ok (.value (.mem e), st) ∧
      ∃ w, Activation.eval { routine := ⟨⟨.named "f", 2, 0, 8, 0⟩, #[], ∅⟩, destination := .discard }
        Rows.machine e = .ok w ∧ w.toInt = 8 + 8 * 5) ∧
    (expr Rows.scope 2
        (Expr.indexed (.name (node 1) "a") (Rows.indices (-1) 3))).run { labels := {} } =
      .error ⟨.indexOutOfBounds 3 3, .point 1 5⟩ := by
  have hb : Rows.scope.tables.bindings[(node 1).id]? = some (.ofNat 0) := by decide +kernel
  have ha : Rows.scope.accesses[(Ident.ofNat 0 : NodeId)]? = some (.param 8 8 1) := by
    decide +kernel
  constructor
  · obtain ⟨e, he, h⟩ := (array_elements_in_row_major_order 2 hb ha rfl
      (Rows.typed 1 2) (by decide)).1 { labels := {} } _ [.const 1, .const 2] Rows.inside rfl
    refine ⟨e, _, he, ?_⟩
    obtain ⟨w, hw, hi, -⟩ := h
      { routine := ⟨⟨.named "f", 2, 0, 8, 0⟩, #[], ∅⟩, destination := .discard } Rows.machine 8
      [1, 2] (by decide +kernel) rfl (by decide) (by decide) (by decide)
    exact ⟨w, hw, hi⟩
  · exact (array_elements_in_row_major_order 2 hb ha rfl (Rows.typed (-1) 3)
      (by decide)).2 { labels := {} } [_] _ _ [] [2] 3 [] 3 rfl rfl rfl ⟨_, rfl, by decide⟩ .nil

end BlockLang
