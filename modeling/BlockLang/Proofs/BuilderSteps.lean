import BlockLang.Proofs.Nodes
import BlockLang.Proofs.Splitting
import BlockLang.Proofs.Stateful
import BlockLang.Source.Builder

/-! What a call of the builder adds to its tables. New nodes are numbered without gaps, and what is
noted of other nodes stays as it is. -/

namespace BlockLang

lemma Ident.toNat_ofNat_of_lt {role : Role} {n : Nat} (h : n < UInt32.size) :
    (Ident.ofNat n : Ident role).toNat = n := by
  rw [Ident.toNat_ofNat, Nat.mod_eq_of_lt h]

def Ty.element : Ty → Ty
  | .array _ element => element
  | .int | .log | .str | .void | .function _ _ => .void

def Ty.result? : Ty → Option Ty
  | .function _ result => some result
  | .int | .log | .str | .void | .array _ _ => none

namespace Source

def TypeExpr.node : TypeExpr → Node
  | .atom n _ | .array n _ _ | .name n _ => n

def TypeExpr.type : TypeExpr → Option Ty
  | .atom _ kind => some kind.type
  | .array _ size element => element.type.map (.array size)
  | .name _ _ => none

def functionType (ps : List Param) (result : TypeExpr) : Option Ty := do
  return .function (← ps.mapM fun q => q.type.type) (← result.type)

lemma functionType_eq {ps : List Param} {result : TypeExpr} {types : Param → Ty} {type : Ty}
    (hps : ∀ q ∈ ps, q.type.type = some (types q)) (ht : result.type = some type) :
    functionType ps result = some (.function (ps.map types) type) := by
  have hall : (ps.mapM fun q => q.type.type) = some (ps.map types) := by
    induction ps with
    | nil => rfl
    | cons q ps ih =>
      rw [List.mapM_cons, hps q (List.mem_cons_self ..),
        ih fun q' hq => hps q' (List.mem_cons_of_mem _ hq)]
      rfl
  rw [functionType, hall, ht]
  rfl

lemma result?_of_functionType {ps : List Param} {result : TypeExpr} {type : Ty}
    (h : functionType ps result = some type) : type.result? = result.type := by
  obtain ⟨types, -, h⟩ := Option.bind_eq_some_iff.mp h
  obtain ⟨last, hlast, h⟩ := Option.bind_eq_some_iff.mp h
  cases h
  exact hlast.symm

namespace Builder

def put (b : Builder) (type : Option Ty) (target : Option NodeId) : Builder where
  nextId := b.nextId + 1
  span := b.span
  tables :=
    { types := type.elim b.tables.types (b.tables.types.insert (.ofNat b.nextId))
      bindings := target.elim b.tables.bindings (b.tables.bindings.insert (.ofNat b.nextId)) }

def next (b : Builder) : Node := ⟨.ofNat b.nextId, b.span⟩

def Fresh (b : Builder) : Prop :=
  ∀ i : NodeId, b.nextId ≤ i.toNat → b.tables.types[i]? = none ∧ b.tables.bindings[i]? = none

structure Makes (b b' : Builder) (ids : List NodeId) : Prop where
  next : b'.nextId = b.nextId + ids.length
  ids_eq : ids = (List.range' b.nextId ids.length).map .ofNat
  others : ∀ i : NodeId, i.toNat < b.nextId ∨ b'.nextId ≤ i.toNat →
    b'.tables.types[i]? = b.tables.types[i]? ∧ b'.tables.bindings[i]? = b.tables.bindings[i]?

variable {b b₁ b' : Builder} {ids ids' : List NodeId} {type : Option Ty} {target : Option NodeId}

namespace Makes

lemma le (h : Makes b b' ids) : b.nextId ≤ b'.nextId := h.next ▸ Nat.le_add_right ..

lemma of_eq (hn : b'.nextId = b.nextId) (ht : b'.tables = b.tables) : Makes b b' [] :=
  ⟨hn, rfl, fun i _ => by rw [ht]; exact ⟨rfl, rfl⟩⟩

lemma append (h : Makes b b₁ ids) (h' : Makes b₁ b' ids') : Makes b b' (ids ++ ids') := by
  refine ⟨?_, ?_, fun i hi => ?_⟩
  · rw [h'.next, h.next, List.length_append, Nat.add_assoc]
  · rw [List.length_append, ← List.range'_append_1, List.map_append, ← h.next, ← h.ids_eq,
      ← h'.ids_eq]
  · have h₁ := h.others i (hi.imp_right (Nat.le_trans h'.le))
    have h₂ := h'.others i (hi.imp_left fun hlt => Nat.lt_of_lt_of_le hlt h.le)
    exact ⟨h₂.1.trans h₁.1, h₂.2.trans h₁.2⟩

lemma fresh (h : Makes b b' ids) (hb : b.Fresh) : b'.Fresh := by
  intro i hi
  obtain ⟨ht, ht'⟩ := h.others i (.inr hi)
  obtain ⟨hn, hn'⟩ := hb i (Nat.le_trans h.le hi)
  exact ⟨ht.trans hn, ht'.trans hn'⟩

end Makes

lemma ne_of_toNat_ne {i : NodeId} (hn : b.nextId < UInt32.size) (hi : i.toNat ≠ b.nextId) :
    compare (.ofNat b.nextId) i ≠ .eq := by
  intro he
  rw [← Std.LawfulEqOrd.eq_of_compare he, Ident.toNat_ofNat_of_lt hn] at hi
  exact hi rfl

lemma put_others (hn : b.nextId < UInt32.size) (type : Option Ty) (target : Option NodeId)
    {i : NodeId} (hi : i.toNat ≠ b.nextId) :
    (b.put type target).tables.types[i]? = b.tables.types[i]? ∧
      (b.put type target).tables.bindings[i]? = b.tables.bindings[i]? := by
  have hne := ne_of_toNat_ne hn hi
  constructor
  · cases type with
    | none => rfl
    | some t => exact (Std.TreeMap.getElem?_insert ..).trans (if_neg hne)
  · cases target with
    | none => rfl
    | some t => exact (Std.TreeMap.getElem?_insert ..).trans (if_neg hne)

lemma makes_put (hn : b.nextId < UInt32.size) (type : Option Ty) (target : Option NodeId) :
    Makes b (b.put type target) [.ofNat b.nextId] := by
  refine ⟨rfl, rfl, fun i hi => put_others hn type target ?_⟩
  have hnext : (b.put type target).nextId = b.nextId + 1 := rfl
  omega

lemma put_type (t : Ty) (target : Option NodeId) :
    (b.put (some t) target).tables.types[(.ofNat b.nextId : NodeId)]? = some t :=
  Std.TreeMap.getElem?_insert_self

lemma put_target (hb : b.Fresh) (hn : b.nextId < UInt32.size) (type : Option Ty)
    (target : Option NodeId) :
    (b.put type target).tables.bindings[(.ofNat b.nextId : NodeId)]? = target := by
  cases target with
  | none => exact (hb _ (Nat.le_of_eq (Ident.toNat_ofNat_of_lt hn).symm)).2
  | some t => exact Std.TreeMap.getElem?_insert_self

lemma Makes.setType (h : Makes b b' ids) (hn : b'.nextId ≤ UInt32.size) {i : Nat}
    (hi : b.nextId ≤ i) (hi' : i < b'.nextId) (type : Ty) :
    Makes b { b' with tables.types := b'.tables.types.insert (.ofNat i) type } ids := by
  refine ⟨h.next, h.ids_eq, fun j hj => ?_⟩
  have hj' : j.toNat < b.nextId ∨ b'.nextId ≤ j.toNat := hj
  have hne : compare (.ofNat i) j ≠ .eq := by
    intro he
    rw [← Std.LawfulEqOrd.eq_of_compare he,
      Ident.toNat_ofNat_of_lt (Nat.lt_of_lt_of_le hi' hn)] at hj'
    omega
  have ho := h.others j hj
  exact ⟨(Std.TreeMap.getElem?_insert ..).trans ((if_neg hne).trans ho.1), ho.2⟩

lemma typeExpr_makes (type : Ty) {b b' : Builder} {t : TypeExpr}
    (h : (typeExpr type).run b = .ok (t, b')) (hn : b'.nextId ≤ UInt32.size) :
    Makes b b' t.ids ∧ t.type = some type ∧ b'.tables.types[t.node.id]? = some type := by
  cases type with
  | int | log | str =>
    cases h
    exact ⟨makes_put hn (some _) none, rfl, put_type _ none⟩
  | array size element =>
    obtain ⟨n, b₁, hnode, h⟩ := run_bind_ok.mp h
    cases hnode
    obtain ⟨e, b₂, he, h⟩ := run_bind_ok.mp h
    cases h
    -- the node is made before those of the element, and its type is noted after them
    obtain ⟨hm, htype, -⟩ := typeExpr_makes element he hn
    have hlt : b.nextId < b₂.nextId := hm.le
    have hput := makes_put (Nat.lt_of_lt_of_le hlt hn) none none
    refine ⟨(hput.append hm).setType hn (Nat.le_refl _) hlt _, ?_, Std.TreeMap.getElem?_insert_self⟩
    rw [TypeExpr.type, htype, Option.map_some]
  | void => cases h
  | function ps r => cases h

end Builder

def BinaryOp.resultType (op : BinaryOp) (lhs : Ty) : Ty :=
  match op.family with
  | .arithmetic => .int
  | .logical | .comparison => .log
  | .assignment => .void
  | .index => Ty.element lhs

def UnaryOp.resultType : UnaryOp → Ty
  | .not => .log
  | .plus | .negate => .int

def Literal.type : Literal → Ty
  | .integer _ => .int
  | .logical _ => .log
  | .string _ => .str

def unboundType (name : String) : Ty :=
  match Intrinsic.ofName? name with
  | some .randInt => .int
  | _ => .void

def Expr.derivedType (t : Tables) : Expr → Option Ty
  | .literal _ v => some v.type
  | .name n _ => t.bindings[n.id]?.bind fun target => t.types[target]?
  | .unary _ op _ => some op.resultType
  | .binary _ op l _ => t.types[l.node.id]?.map op.resultType
  | .call n x _ =>
    match t.bindings[n.id]? with
    | some target => t.types[target]?.bind Ty.result?
    | none => some (unboundType x)
  | .block _ body =>
    match body.getLast? with
    | some e => t.types[e.node.id]?
    | none => some .void
  | .ifThen _ _ _ | .ifElse _ _ _ _ | .whileLoop _ _ _ | .forLoop _ _ _ _ _ _ => some .void
  | .whereDefs _ e _ _ => t.types[e.node.id]?

lemma Expr.derivedType_call_bound {t : Tables} {n : Node} {x : String} {args : List Expr}
    {target : NodeId} (h : t.bindings[n.id]? = some target) :
    (Expr.call n x args).derivedType t = t.types[target]?.bind Ty.result? := by
  simp only [derivedType, h]

lemma Expr.derivedType_call_unbound {t : Tables} {n : Node} {x : String} {args : List Expr}
    (h : t.bindings[n.id]? = none) :
    (Expr.call n x args).derivedType t = some (unboundType x) := by
  simp only [derivedType, h]

def Def.derivedType : Def → Option Ty
  | .var _ _ t | .type _ _ t => t.type
  | .func _ _ ps t _ => functionType ps t

namespace Builder

inductive Part where
  | typeExpr (t : TypeExpr)
  | expr (e : Expr)
  | defn (d : Def)
  | param (q : Param)
  | signature (s : Signature)

namespace Part

def node : Part → Node
  | typeExpr t => t.node
  | expr e => e.node
  | defn d => d.node
  | param q => q.node
  | signature s => s.node

def created : Part → List NodeId
  | typeExpr t => t.ids
  | expr (.whereDefs n _ m _) => [m.id, n.id]
  | expr e => [e.node.id]
  | defn (.var n _ t) | defn (.type n _ t) => t.ids ++ [n.id]
  | defn (.func _ _ _ _ _) => []
  | param q => q.type.ids ++ [q.node.id]
  | signature s => s.resultType.ids ++ [s.node.id]

def direct : Part → List Part
  | expr (.literal _ _) | expr (.name _ _) => []
  | expr (.unary _ _ x) => [expr x]
  | expr (.binary _ _ l r) => [expr l, expr r]
  | expr (.call _ _ es) | expr (.block _ es) => es.map expr
  | expr (.ifThen _ c p) => [expr c, expr p]
  | expr (.ifElse _ c p q) => [expr c, expr p, expr q]
  | expr (.whileLoop _ c b) => [expr c, expr b]
  | expr (.forLoop _ c l h s b) => [expr c, expr l, expr h, expr s, expr b]
  | expr (.whereDefs _ x _ ds) => expr x :: ds.map defn
  | defn (.func _ _ ps _ b) => expr b :: ps.map param
  | defn (.var _ _ _) | defn (.type _ _ _) | typeExpr _ | param _ => []
  | signature s => s.params.map param

def derivedType (t : Tables) : Part → Option Ty
  | typeExpr e => e.type
  | expr e => e.derivedType t
  | defn d => d.derivedType
  | param q => q.type.type
  | signature s => functionType s.params s.resultType

def Agrees : Part → Prop
  | signature s => s.resultType.type = some s.result
  | typeExpr _ | expr _ | defn _ | param _ => True

structure Noted (t : Tables) (x : Part) : Prop where
  type : ∃ type, x.derivedType t = some type ∧ t.types[x.node.id]? = some type
  agrees : x.Agrees

end Part

inductive Named where
  | defn (d : Def)
  | param (q : Param)

def Named.part : Named → Part
  | defn d => .defn d
  | param q => .param q

def Named.ref : Named → Ref
  | defn d => d.ref
  | param q => q.ref

inductive Request where
  | moveTo (line column : Nat)
  | typeExpr (type : Ty)
  | int (value : Word)
  | log (value : Bool)
  | string (value : String)
  | name (target : Named)
  | binary (op : BinaryOp) (lhs rhs : Expr)
  | unary (op : UnaryOp) (operand : Expr)
  | call (callee : Signature) (args : List Expr)
  | callUnbound (name : String) (args : List Expr)
  | block (body : List Expr)
  | ifThen (condition positive : Expr)
  | ifElse (condition positive negative : Expr)
  | whileLoop (condition body : Expr)
  | forLoop (counter low high step body : Expr)
  | whereDefs (body : Expr) (defs : List Def)
  | var (name : String) (type : Ty)
  | typeDef (name : String) (type : Ty)
  | param (name : String) (type : Ty)
  | signature (name : String) (params : List Param) (result : Ty)
  | func (s : Signature) (body : Expr)

namespace Request

def parts : Request → List Part
  | moveTo _ _ | typeExpr _ | int _ | log _ | string _ | var _ _ | typeDef _ _ | param _ _ => []
  | name target => [target.part]
  | binary _ l r => [.expr l, .expr r]
  | unary _ x => [.expr x]
  | call s args => .signature s :: args.map .expr
  | callUnbound _ es | block es => es.map .expr
  | ifThen c p => [.expr c, .expr p]
  | ifElse c p q => [.expr c, .expr p, .expr q]
  | whileLoop c b => [.expr c, .expr b]
  | forLoop c l h s b => [.expr c, .expr l, .expr h, .expr s, .expr b]
  | whereDefs x ds => .expr x :: ds.map .defn
  | signature _ ps _ => ps.map .param
  | func s b => [.signature s, .expr b]

def run : Request → Build (Option Part)
  | moveTo line column => do
    Builder.moveTo line column
    return none
  | typeExpr type => return some (.typeExpr (← Builder.typeExpr type))
  | int value => return some (.expr (← Builder.int value))
  | log value => return some (.expr (← Builder.log value))
  | string value => return some (.expr (← Builder.string value))
  | name target => return some (.expr (← Builder.name target.ref))
  | binary op l r => return some (.expr (← Builder.binary op l r))
  | unary op x => return some (.expr (← Builder.unary op x))
  | call s args => return some (.expr (← Builder.call s args))
  | callUnbound x args => return some (.expr (← Builder.callUnbound x args))
  | block body => return some (.expr (← Builder.block body))
  | ifThen c p => return some (.expr (← Builder.ifThen c p))
  | ifElse c p q => return some (.expr (← Builder.ifElse c p q))
  | whileLoop c b => return some (.expr (← Builder.whileLoop c b))
  | forLoop c l h s b => return some (.expr (← Builder.forLoop c l h s b))
  | whereDefs x ds => return some (.expr (← Builder.whereDefs x ds))
  | var x type => return some (.defn (← Builder.var x type))
  | typeDef x type => return some (.defn (← Builder.typeDef x type))
  | param x type => return some (.param (← Builder.param x type))
  | signature x ps result => return some (.signature (← Builder.signature x ps result))
  | func s b => return some (.defn (Builder.func s b))

def target? : Request → Option NodeId
  | name target => some target.ref.id
  | call s _ => some s.node.id
  | _ => none

def Gives : Request → Expr → Prop
  | name target, .name _ x => x = target.ref.name
  | call s args, .call _ x args' => x = s.name ∧ args' = args
  | callUnbound y args, .call _ x args' => x = y ∧ args' = args
  | _, .name _ _ | _, .call _ _ _ => False
  | _, _ => True

end Request

def Part.StemsFrom (t : Tables) (r : Request) : Part → Prop
  | expr e => r.Gives e ∧ t.bindings[e.node.id]? = r.target?
  | typeExpr _ | defn _ | param _ | signature _ => True

end Builder

def Tables.Keeps (t t' : Tables) : Prop :=
  ∀ (i : NodeId) (type : Ty), t.types[i]? = some type →
    t'.types[i]? = some type ∧ t'.bindings[i]? = t.bindings[i]?

section Keeps

variable {t t' : Tables}

lemma Expr.derivedType_keeps (h : t.Keeps t') (e : Expr) {type type' : Ty}
    (he : t.types[e.node.id]? = some type') (hd : e.derivedType t = some type) :
    e.derivedType t' = some type := by
  have hb := (h _ _ he).2
  cases e with
  | literal n v => exact hd
  | name n x =>
    obtain ⟨target, ht, htype⟩ := Option.bind_eq_some_iff.mp hd
    exact Option.bind_eq_some_iff.mpr ⟨target, hb.trans ht, (h _ _ htype).1⟩
  | unary n op x => exact hd
  | binary n op l r =>
    obtain ⟨left, hl, htype⟩ := Option.map_eq_some_iff.mp hd
    exact Option.map_eq_some_iff.mpr ⟨left, (h _ _ hl).1, htype⟩
  | call n x args =>
    rw [Expr.node] at hb
    cases ht : t.bindings[n.id]? with
    | none =>
      rw [derivedType_call_unbound ht] at hd
      rw [derivedType_call_unbound (hb.trans ht), hd]
    | some target =>
      rw [derivedType_call_bound ht] at hd
      rw [derivedType_call_bound (hb.trans ht)]
      obtain ⟨callee, hc, htype⟩ := Option.bind_eq_some_iff.mp hd
      exact Option.bind_eq_some_iff.mpr ⟨callee, (h _ _ hc).1, htype⟩
  | block n body =>
    unfold derivedType at hd ⊢
    cases hl : body.getLast? with
    | none => simpa only [hl] using hd
    | some e =>
      simp only [hl] at hd ⊢
      exact (h _ _ hd).1
  | ifThen n c p => exact hd
  | ifElse n c p q => exact hd
  | whileLoop n c b => exact hd
  | forLoop n c low high step b => exact hd
  | whereDefs n x m ds => exact (h _ _ hd).1

lemma Builder.Part.Noted.keeps {x : Part} (hx : x.Noted t) (h : t.Keeps t') : x.Noted t' := by
  obtain ⟨type, hd, hn⟩ := hx.type
  refine ⟨⟨type, ?_, (h _ _ hn).1⟩, hx.agrees⟩
  cases x with
  | typeExpr e => exact hd
  | expr e => exact e.derivedType_keeps h hn hd
  | defn d => exact hd
  | param q => exact hd
  | signature s => exact hd

end Keeps

namespace Builder

variable {b b₁ b' : Builder} {ids : List NodeId} {r : Request} {x : Part}

lemma Makes.keeps (h : Makes b b' ids) (hb : b.Fresh) : b.tables.Keeps b'.tables := by
  intro i type hi
  have hlt : i.toNat < b.nextId := by
    by_contra hge
    cases (hb i (Nat.le_of_not_lt hge)).1.symm.trans hi
  obtain ⟨ht, ht'⟩ := h.others i (.inl hlt)
  exact ⟨ht.trans hi, ht'⟩

lemma Part.Noted.typeOf (hx : x.Noted b.tables) :
    b.tables.types[x.node.id]? = some (b.tables.types.getD x.node.id .void) := by
  obtain ⟨type, -, hn⟩ := hx.type
  rw [Std.TreeMap.getD_eq_getD_getElem?, hn, Option.getD_some]

structure Adds (b b' : Builder) (r : Request) (x : Part) : Prop where
  makes : Makes b b' x.created
  noted : x.Noted b'.tables
  direct : x.direct ⊆ r.parts ++ r.parts.flatMap Part.direct
  stems : x.StemsFrom b'.tables r

lemma adds_expr {y : Option Part} (h : r.run.run b = .ok (y, b')) (hb : b.Fresh)
    (hn : b'.nextId ≤ UInt32.size) (e : Expr) (type : Ty)
    (hrun : r.run.run b = .ok (some (.expr e), b.put (some type) r.target?))
    (hnode : e.node = b.next) (hc : (Part.expr e).created = [e.node.id])
    (ht : b.nextId < UInt32.size →
      e.derivedType (b.put (some type) r.target?).tables = some type)
    (hd : (Part.expr e).direct ⊆ r.parts) (hg : r.Gives e) : ∃ x, y = some x ∧ Adds b b' r x := by
  obtain ⟨rfl, rfl⟩ := Prod.mk.inj (Except.ok.inj (hrun.symm.trans h))
  have hlt : b.nextId < UInt32.size := hn
  refine ⟨_, rfl, ?_, ⟨⟨type, ht hlt, ?_⟩, trivial⟩, List.subset_append_of_subset_left _ hd, hg, ?_⟩
  · rw [hc, hnode]
    exact makes_put hlt _ _
  · rw [Part.node, hnode]
    exact put_type type _
  · rw [hnode]
    exact put_target hb hlt _ _

lemma Part.Noted.put_typeOf (hx : x.Noted b.tables) (hb : b.Fresh) (hn : b.nextId < UInt32.size)
    (type : Option Ty) (target : Option NodeId) :
    (b.put type target).tables.types[x.node.id]? = some (b.tables.types.getD x.node.id .void) :=
  ((makes_put hn type target).keeps hb _ _ hx.typeOf).1

lemma binary_run (op : BinaryOp) (lhs rhs : Expr) :
    (binary op lhs rhs).run b = .ok (.binary b.next op lhs rhs,
      b.put (some (op.resultType (b.tables.types.getD lhs.node.id .void))) none) := by
  cases op with
  | compute op => cases op <;> rfl
  | assign => rfl
  | index =>
    refine run_bind_ok.mpr ⟨_, b, rfl, ?_⟩
    rw [BinaryOp.resultType]
    cases b.tables.types.getD lhs.node.id .void <;> rfl

lemma block_run (body : List Expr) :
    (block body).run b = .ok (.block b.next body,
      b.put (some ((body.getLast?.map fun e => b.tables.types.getD e.node.id .void).getD .void))
        none) := by
  unfold block
  cases body.getLast? <;> rfl

lemma typesOf_run (ps : List Param) :
    (ps.mapM fun q => typeOf q.node.id).run b =
      .ok (ps.map fun q => b.tables.types.getD q.node.id .void, b) := by
  induction ps with
  | nil => rfl
  | cons q ps ih =>
    rw [List.mapM_cons]
    exact run_bind_ok.mpr ⟨_, b, rfl, run_bind_ok.mpr ⟨_, b, ih, rfl⟩⟩

lemma adds_written {type type' : Ty} {t : TypeExpr}
    (h : (Builder.typeExpr type).run b = .ok (t, b₁))
    (hn : (b₁.put (some type') none).nextId ≤ UInt32.size) (hnode : x.node = b₁.next)
    (hc : x.created = t.ids ++ [x.node.id])
    (hd : t.type = some type → x.derivedType (b₁.put (some type') none).tables = some type')
    (ha : t.type = some type → x.Agrees) (hx : x.direct ⊆ r.parts)
    (hs : x.StemsFrom (b₁.put (some type') none).tables r) :
    Adds b (b₁.put (some type') none) r x := by
  have hlt : b₁.nextId < UInt32.size := hn
  obtain ⟨hm, ht, -⟩ := typeExpr_makes type h (Nat.le_of_lt hlt)
  refine ⟨?_, ⟨⟨type', hd ht, ?_⟩, ha ht⟩, List.subset_append_of_subset_left _ hx, hs⟩
  · rw [hc, hnode]
    exact hm.append (makes_put hlt _ none)
  · rw [hnode]
    exact put_type type' none

lemma Named.node_id (target : Named) : target.part.node.id = target.ref.id := by
  cases target <;> rfl

lemma whereDefs_run (body : Expr) (ds : List Def) :
    (whereDefs body ds).run b = .ok (.whereDefs (b.put none none).next body b.next ds,
      (b.put none none).put (some (b.tables.types.getD body.node.id .void)) none) :=
  rfl

lemma adds_whereDefs {body : Expr} {ds : List Def} {type : Ty} (hb : b.Fresh)
    (hn : ((b.put none none).put (some type) none).nextId ≤ UInt32.size)
    (hp : ∀ q ∈ (Request.whereDefs body ds).parts, q.Noted b.tables)
    (ht : type = b.tables.types.getD body.node.id .void) :
    Adds b ((b.put none none).put (some type) none) (.whereDefs body ds)
      (.expr (.whereDefs (b.put none none).next body b.next ds)) := by
  have hlt : (b.put none none).nextId < UInt32.size := hn
  have hm := makes_put (Nat.lt_of_succ_lt hlt) none none
  have hm' := makes_put hlt (some type) none
  have hbody := hp (.expr body) (List.mem_cons_self ..)
  refine ⟨hm.append hm', ⟨⟨type, ?_, put_type type none⟩, trivial⟩, List.subset_append_left _ _,
    trivial, put_target (hm.fresh hb) hlt _ none⟩
  have hkept := (hm'.keeps (hm.fresh hb) _ _ (hm.keeps hb _ _ hbody.typeOf).1).1
  exact hkept.trans (congrArg some ht.symm)

lemma adds_signature {x : String} {ps : List Param} {result : Ty} {s : Signature} (hb : b.Fresh)
    (hn : b'.nextId ≤ UInt32.size)
    (hp : ∀ q ∈ (Request.signature x ps result).parts, q.Noted b.tables)
    (h : (Builder.signature x ps result).run b = .ok (s, b')) :
    Adds b b' (.signature x ps result) (.signature s) := by
  obtain ⟨t, b₁, ht, h⟩ := run_bind_ok.mp h
  obtain ⟨types, b₂, hts, h⟩ := run_bind_ok.mp h
  rw [typesOf_run] at hts
  cases hts
  cases h
  have hlt : b₁.nextId < UInt32.size := hn
  have hkeeps := (typeExpr_makes result ht (Nat.le_of_lt hlt)).1.keeps hb
  -- the builder asks for the types of the parameters after it has written the result
  have hps : ∀ q ∈ ps, q.type.type = some (b₁.tables.types.getD q.node.id .void) := by
    intro q hq
    obtain ⟨type, hd, hq⟩ := ((hp _ (List.mem_map_of_mem hq)).keeps hkeeps).type
    rw [Std.TreeMap.getD_eq_getD_getElem?]
    exact hd.trans (congrArg (some <| Option.getD · Ty.void) hq).symm
  refine adds_written ht hn rfl rfl (fun htype => ?_) (fun htype => htype) (List.Subset.refl _)
    trivial
  exact functionType_eq hps htype

lemma typeExpr_le (type : Ty) {b b' : Builder} {t : TypeExpr}
    (h : (Builder.typeExpr type).run b = .ok (t, b')) : b.nextId ≤ b'.nextId := by
  cases type with
  | int | log | str =>
    cases h
    exact Nat.le_succ _
  | array size element =>
    obtain ⟨n, b₁, hnode, h⟩ := run_bind_ok.mp h
    cases hnode
    obtain ⟨e, b₂, he, h⟩ := run_bind_ok.mp h
    cases h
    exact Nat.le_of_succ_le (typeExpr_le element he)
  | void => cases h
  | function ps r => cases h

lemma signature_le {x : String} {ps : List Param} {result : Ty} {s : Signature}
    (h : (Builder.signature x ps result).run b = .ok (s, b')) : b.nextId ≤ b'.nextId := by
  obtain ⟨t, b₁, ht, h⟩ := run_bind_ok.mp h
  obtain ⟨types, b₂, hts, h⟩ := run_bind_ok.mp h
  rw [typesOf_run] at hts
  cases hts
  cases h
  exact Nat.le_succ_of_le (typeExpr_le result ht)

lemma run_le {y : Option Part} (h : r.run.run b = .ok (y, b')) : b.nextId ≤ b'.nextId := by
  cases r with
  | moveTo | func =>
    cases h
    exact Nat.le_refl _
  | typeExpr type =>
    obtain ⟨t, b₁, ht, h⟩ := run_bind_ok.mp h
    cases h
    exact typeExpr_le type ht
  | binary op lhs rhs =>
    obtain ⟨e, b₁, he, h⟩ := run_bind_ok.mp h
    rw [binary_run] at he
    cases he
    cases h
    exact Nat.le_succ _
  | block body =>
    obtain ⟨e, b₁, he, h⟩ := run_bind_ok.mp h
    rw [block_run] at he
    cases he
    cases h
    exact Nat.le_succ _
  | whereDefs body ds =>
    cases h
    exact Nat.le_add_right _ 2
  | var x type | typeDef x type | param x type =>
    obtain ⟨d, b₁, hd, h⟩ := run_bind_ok.mp h
    obtain ⟨t, b₂, ht, hd⟩ := run_bind_ok.mp hd
    cases hd
    cases h
    exact Nat.le_succ_of_le (typeExpr_le type ht)
  | signature x ps result =>
    obtain ⟨s, b₁, hs, h⟩ := run_bind_ok.mp h
    cases h
    exact signature_le hs
  | _ =>
    cases h
    exact Nat.le_succ _

theorem run_adds {y : Option Part} (hb : b.Fresh) (hn : b'.nextId ≤ UInt32.size)
    (hp : ∀ q ∈ r.parts, q.Noted b.tables) (h : r.run.run b = .ok (y, b')) :
    (y = none ∧ Makes b b' []) ∨ ∃ x, y = some x ∧ Adds b b' r x := by
  cases r with
  | moveTo line column =>
    cases h
    exact .inl ⟨rfl, .of_eq rfl rfl⟩
  | typeExpr type =>
    obtain ⟨t, b₁, ht, h⟩ := run_bind_ok.mp h
    cases h
    obtain ⟨hm, htype, hnoted⟩ := typeExpr_makes type ht hn
    exact .inr ⟨_, rfl, hm, ⟨⟨type, htype, hnoted⟩, trivial⟩, List.nil_subset _, trivial⟩
  | int value =>
    exact .inr (adds_expr h hb hn (.literal b.next (.integer value)) .int rfl rfl rfl (fun _ => rfl)
      (List.nil_subset _) trivial)
  | log value =>
    exact .inr (adds_expr h hb hn (.literal b.next (.logical value)) .log rfl rfl rfl (fun _ => rfl)
      (List.nil_subset _) trivial)
  | string value =>
    exact .inr (adds_expr h hb hn (.literal b.next (.string value)) .str rfl rfl rfl (fun _ => rfl)
      (List.nil_subset _) trivial)
  | name target =>
    refine .inr (adds_expr h hb hn (.name b.next target.ref.name)
      (b.tables.types.getD target.ref.id .void) rfl rfl rfl (fun hlt => ?_) (List.nil_subset _) rfl)
    have ht := (hp target.part (List.mem_singleton_self _)).put_typeOf hb hlt
    rw [target.node_id] at ht
    exact Option.bind_eq_some_iff.mpr ⟨_, put_target hb hlt _ _, ht _ _⟩
  | binary op lhs rhs =>
    refine .inr (adds_expr h hb hn _ _ (run_bind_ok.mpr ⟨_, _, binary_run op lhs rhs, rfl⟩) rfl rfl
      (fun hlt => ?_) (List.Subset.refl _) trivial)
    have ht := (hp (.expr lhs) (List.mem_cons_self ..)).put_typeOf hb hlt
    exact Option.map_eq_some_iff.mpr ⟨_, ht _ _, rfl⟩
  | unary op x =>
    exact .inr (adds_expr h hb hn (.unary b.next op x) op.resultType rfl rfl rfl (fun _ => rfl)
      (List.Subset.refl _) trivial)
  | call s args =>
    refine .inr (adds_expr h hb hn (.call b.next s.name args) s.result rfl rfl rfl (fun hlt => ?_)
      (List.subset_cons_self _ _) ⟨rfl, rfl⟩)
    have hs := hp (.signature s) (List.mem_cons_self ..)
    obtain ⟨type, hd, ht⟩ := (hs.keeps ((makes_put hlt _ _).keeps hb)).type
    rw [Expr.derivedType_call_bound (put_target hb hlt _ _)]
    exact Option.bind_eq_some_iff.mpr ⟨type, ht, (result?_of_functionType hd).trans hs.agrees⟩
  | callUnbound x args =>
    refine .inr (adds_expr h hb hn (.call b.next x args) (unboundType x) rfl rfl rfl (fun hlt => ?_)
      (List.Subset.refl _) ⟨rfl, rfl⟩)
    exact Expr.derivedType_call_unbound (put_target hb hlt _ _)
  | block body =>
    refine .inr (adds_expr h hb hn _ _ (run_bind_ok.mpr ⟨_, _, block_run body, rfl⟩) rfl rfl
      (fun hlt => ?_) (List.Subset.refl _) trivial)
    rw [Expr.derivedType]
    cases hl : body.getLast? with
    | none => rfl
    | some e =>
      have he := hp (.expr e) (List.mem_map_of_mem (List.mem_of_getLast? hl))
      exact he.put_typeOf hb hlt _ _
  | ifThen c p =>
    exact .inr (adds_expr h hb hn (.ifThen b.next c p) .void rfl rfl rfl (fun _ => rfl)
      (List.Subset.refl _) trivial)
  | ifElse c p q =>
    exact .inr (adds_expr h hb hn (.ifElse b.next c p q) .void rfl rfl rfl (fun _ => rfl)
      (List.Subset.refl _) trivial)
  | whileLoop c body =>
    exact .inr (adds_expr h hb hn (.whileLoop b.next c body) .void rfl rfl rfl (fun _ => rfl)
      (List.Subset.refl _) trivial)
  | forLoop c low high step body =>
    exact .inr (adds_expr h hb hn (.forLoop b.next c low high step body) .void rfl rfl rfl
      (fun _ => rfl) (List.Subset.refl _) trivial)
  | whereDefs body ds =>
    obtain ⟨e, b₁, he, h⟩ := run_bind_ok.mp h
    rw [whereDefs_run] at he
    cases he
    cases h
    exact .inr ⟨_, rfl, adds_whereDefs hb hn hp rfl⟩
  | var x type | typeDef x type | param x type =>
    obtain ⟨d, b₁, hd, h⟩ := run_bind_ok.mp h
    obtain ⟨t, b₂, ht, hd⟩ := run_bind_ok.mp hd
    cases hd
    cases h
    exact .inr ⟨_, rfl, adds_written ht hn rfl rfl (fun htype => htype) (fun _ => trivial)
      (List.nil_subset _) trivial⟩
  | signature x ps result =>
    obtain ⟨s, b₁, hs, h⟩ := run_bind_ok.mp h
    cases h
    exact .inr ⟨_, rfl, adds_signature hb hn hp hs⟩
  | func s body =>
    cases h
    -- no node is made, and the parameters come with the signature
    have hs := hp (.signature s) (List.mem_cons_self ..)
    refine .inr ⟨_, rfl, .of_eq rfl rfl, ⟨hs.type, trivial⟩, ?_, trivial⟩
    refine List.cons_subset.mpr ⟨by simp [Request.parts], fun q hq => ?_⟩
    exact List.mem_append_right _ (List.mem_append_left _ hq)

end Builder

end Source

end BlockLang
