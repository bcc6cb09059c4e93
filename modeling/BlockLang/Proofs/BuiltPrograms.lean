import BlockLang.Proofs.Agreement
import BlockLang.Proofs.BuilderSteps

/-! Programs that come out of the builder. Whatever calls are made, in whatever order, the tables
know every part of the program, and the lowering never misses a type or what a name stands for. -/

namespace BlockLang

open Source Lowering

namespace Source

def Item.part : Item → Builder.Part
  | .expr e => .expr e
  | .defn d => .defn d

lemma Item.part_node (i : Item) : i.part.node = i.node := by
  cases i <;> rfl

namespace Builder

structure Event where
  request : Request
  part : Option Part

def handedOut (done : List Event) : List Part := done.filterMap Event.part

lemma mem_handedOut {done : List Event} {x : Part} :
    x ∈ handedOut done ↔ ∃ r, ⟨r, some x⟩ ∈ done := by
  rw [handedOut, List.mem_filterMap]
  constructor
  · rintro ⟨⟨r, y⟩, hm, rfl⟩
    exact ⟨r, hm⟩
  · rintro ⟨r, hm⟩
    exact ⟨_, hm, rfl⟩

/-- The calls that led to a state. What is passed to a call was handed out before; it can be passed
any number of times. -/
inductive History : List Event → Builder → Prop
  | start : History [] {}
  | step {done : List Event} {b b' : Builder} (h : History done b) (r : Request) {y : Option Part}
      (hp : r.parts ⊆ handedOut done) (hr : r.run.run b = .ok (y, b')) :
      History (done ++ [⟨r, y⟩]) b'

structure Accounts (done : List Event) (b : Builder) : Prop where
  fresh : b.Fresh
  numbers : (handedOut done).flatMap Part.created = (List.range b.nextId).map .ofNat
  noted : ∀ x ∈ handedOut done, x.Noted b.tables
  closed : ∀ x ∈ handedOut done, x.direct ⊆ handedOut done
  given : ∀ r e, ⟨r, some (.expr e)⟩ ∈ done →
    r.Gives e ∧ b.tables.bindings[e.node.id]? = r.target?

namespace Accounts

variable {done : List Event} {b b' : Builder} {r : Request} {ids : List NodeId}

lemma start : Accounts [] {} where
  fresh _ _ := ⟨Std.TreeMap.getElem?_emptyc, Std.TreeMap.getElem?_emptyc⟩
  numbers := rfl
  noted _ h := by cases h
  closed _ h := by cases h
  given _ _ h := by cases h

lemma given_kept (h : Accounts done b) (hm : Makes b b' ids) {r : Request} {e : Expr}
    (hr : ⟨r, some (.expr e)⟩ ∈ done) :
    r.Gives e ∧ b'.tables.bindings[e.node.id]? = r.target? := by
  obtain ⟨hg, hb⟩ := h.given r e hr
  obtain ⟨type, -, ht⟩ := (h.noted _ (mem_handedOut.mpr ⟨r, hr⟩)).type
  exact ⟨hg, (hm.keeps h.fresh _ _ ht).2.trans hb⟩

lemma numbers_append (h : Accounts done b) (hm : Makes b b' ids) :
    (handedOut done).flatMap Part.created ++ ids = (List.range b'.nextId).map .ofNat := by
  rw [h.numbers, hm.ids_eq, ← List.map_append, List.range_eq_range', List.range_eq_range', hm.next]
  have happend := List.range'_append_1 (s := 0) (m := b.nextId) (n := ids.length)
  rw [Nat.zero_add] at happend
  rw [happend]

lemma moved (h : Accounts done b) (hm : Makes b b' []) : Accounts (done ++ [⟨r, none⟩]) b' := by
  have hout : handedOut (done ++ [⟨r, none⟩]) = handedOut done := by simp [handedOut]
  refine ⟨hm.fresh h.fresh, ?_, ?_, ?_, fun r' e he => ?_⟩
  · rw [hout, ← h.numbers_append hm, List.append_nil]
  · rw [hout]
    exact fun x hx => (h.noted x hx).keeps (hm.keeps h.fresh)
  · rw [hout]
    exact h.closed
  · rcases List.mem_append.mp he with he | he
    · exact h.given_kept hm he
    · cases List.mem_singleton.mp he

lemma added (h : Accounts done b) {x : Part} (hp : r.parts ⊆ handedOut done) (hx : Adds b b' r x) :
    Accounts (done ++ [⟨r, some x⟩]) b' := by
  have hout : handedOut (done ++ [⟨r, some x⟩]) = handedOut done ++ [x] := by simp [handedOut]
  have hdirect : x.direct ⊆ handedOut done := by
    refine List.Subset.trans hx.direct (List.append_subset.mpr ⟨hp, ?_⟩)
    intro q hq
    obtain ⟨q', hq', hq⟩ := List.mem_flatMap.mp hq
    exact h.closed q' (hp hq') hq
  refine ⟨hx.makes.fresh h.fresh, ?_, ?_, ?_, fun r' e he => ?_⟩
  · rw [hout, ← h.numbers_append hx.makes, List.flatMap_append, List.flatMap_singleton]
  · rw [hout]
    intro q hq
    rcases List.mem_append.mp hq with hq | hq
    · exact (h.noted q hq).keeps (hx.makes.keeps h.fresh)
    · rw [List.mem_singleton.mp hq]
      exact hx.noted
  · rw [hout]
    intro q hq
    refine List.subset_append_of_subset_left _ ?_
    rcases List.mem_append.mp hq with hq | hq
    · exact h.closed q hq
    · rw [List.mem_singleton.mp hq]
      exact hdirect
  · rcases List.mem_append.mp he with he | he
    · exact h.given_kept hx.makes he
    · cases List.mem_singleton.mp he
      exact hx.stems

end Accounts

theorem History.accounts {done : List Event} {b : Builder} (h : History done b)
    (hn : b.nextId ≤ UInt32.size) : Accounts done b := by
  induction h with
  | start => exact .start
  | step _ r hp hr ih =>
    have ih := ih (Nat.le_trans (run_le hr) hn)
    rcases run_adds ih.fresh hn (fun q hq => ih.noted q (hp hq)) hr with ⟨rfl, hm⟩ | ⟨x, rfl, hx⟩
    · exact ih.moved hm
    · exact ih.added hp hx

lemma passed {xs H : List Part} {x : Part} (i : Nat) (h : H[i]? = some x) (hs : xs ⊆ H) :
    x :: xs ⊆ H :=
  List.cons_subset.mpr ⟨List.mem_of_getElem? h, hs⟩

section Closed

variable {H : List Part}

mutual

lemma expr_handedOut (hH : ∀ x ∈ H, x.direct ⊆ H) (e : Expr) (he : .expr e ∈ H)
    (outer : List NodeId) : ∀ o ∈ e.occurrences outer, o.item.part ∈ H := by
  have hd := hH _ he
  cases e with
  | literal n v => exact List.forall_mem_singleton.mpr he
  | name n x => exact List.forall_mem_singleton.mpr he
  | unary n op x =>
    simp only [Part.direct, List.cons_subset, List.nil_subset, and_true] at hd
    simp only [Expr.occurrences, List.forall_mem_append, List.forall_mem_singleton]
    exact ⟨expr_handedOut hH x hd outer, he⟩
  | binary n op x y =>
    simp only [Part.direct, List.cons_subset, List.nil_subset, and_true] at hd
    simp only [Expr.occurrences, List.forall_mem_append, List.forall_mem_singleton]
    exact ⟨⟨expr_handedOut hH x hd.1 outer, expr_handedOut hH y hd.2 outer⟩, he⟩
  | call n x args =>
    simp only [Expr.occurrences, List.forall_mem_append, List.forall_mem_singleton]
    exact ⟨exprs_handedOut hH args hd outer, he⟩
  | block n body =>
    simp only [Expr.occurrences, List.forall_mem_append, List.forall_mem_singleton]
    exact ⟨exprs_handedOut hH body hd outer, he⟩
  | ifThen n c p =>
    simp only [Part.direct, List.cons_subset, List.nil_subset, and_true] at hd
    simp only [Expr.occurrences, List.forall_mem_append, List.forall_mem_singleton]
    exact ⟨⟨expr_handedOut hH c hd.1 outer, expr_handedOut hH p hd.2 outer⟩, he⟩
  | ifElse n c p q =>
    simp only [Part.direct, List.cons_subset, List.nil_subset, and_true] at hd
    simp only [Expr.occurrences, List.forall_mem_append, List.forall_mem_singleton]
    exact ⟨⟨expr_handedOut hH c hd.1 outer, expr_handedOut hH p hd.2.1 outer,
      expr_handedOut hH q hd.2.2 outer⟩, he⟩
  | whileLoop n c b =>
    simp only [Part.direct, List.cons_subset, List.nil_subset, and_true] at hd
    simp only [Expr.occurrences, List.forall_mem_append, List.forall_mem_singleton]
    exact ⟨⟨expr_handedOut hH c hd.1 outer, expr_handedOut hH b hd.2 outer⟩, he⟩
  | forLoop n c low high step b =>
    simp only [Part.direct, List.cons_subset, List.nil_subset, and_true] at hd
    simp only [Expr.occurrences, List.forall_mem_append, List.forall_mem_singleton]
    obtain ⟨hc, hlow, hhigh, hstep, hb⟩ := hd
    exact ⟨⟨expr_handedOut hH c hc outer, expr_handedOut hH low hlow outer,
      expr_handedOut hH high hhigh outer, expr_handedOut hH step hstep outer,
      expr_handedOut hH b hb outer⟩, he⟩
  | whereDefs n x m ds =>
    obtain ⟨hx, hds⟩ := List.cons_subset.mp hd
    simp only [Expr.occurrences, List.forall_mem_append, List.forall_mem_singleton]
    exact ⟨⟨defs_handedOut hH ds hds outer, expr_handedOut hH x hx outer⟩, he⟩

lemma exprs_handedOut (hH : ∀ x ∈ H, x.direct ⊆ H) (es : List Expr) (hes : es.map .expr ⊆ H)
    (outer : List NodeId) : ∀ o ∈ Expr.occurrencesAll outer es, o.item.part ∈ H := by
  cases es with
  | nil => exact List.forall_mem_nil _
  | cons e es =>
    obtain ⟨he, hes⟩ := List.cons_subset.mp hes
    exact List.forall_mem_append.mpr
      ⟨expr_handedOut hH e he outer, exprs_handedOut hH es hes outer⟩

lemma def_handedOut (hH : ∀ x ∈ H, x.direct ⊆ H) (d : Def) (hd : .defn d ∈ H)
    (outer : List NodeId) : ∀ o ∈ d.occurrences outer, o.item.part ∈ H := by
  cases d with
  | var n x t => exact List.forall_mem_singleton.mpr hd
  | func n x ps t b =>
    have hb := (List.cons_subset.mp (hH _ hd)).1
    simp only [Def.occurrences, List.forall_mem_append, List.forall_mem_singleton]
    exact ⟨expr_handedOut hH b hb (n.id :: outer), hd⟩
  | type n x t => exact List.forall_mem_singleton.mpr hd

lemma defs_handedOut (hH : ∀ x ∈ H, x.direct ⊆ H) (ds : List Def) (hds : ds.map .defn ⊆ H)
    (outer : List NodeId) : ∀ o ∈ Def.occurrencesAll outer ds, o.item.part ∈ H := by
  cases ds with
  | nil => exact List.forall_mem_nil _
  | cons d ds =>
    obtain ⟨hd, hds⟩ := List.cons_subset.mp hds
    exact List.forall_mem_append.mpr ⟨def_handedOut hH d hd outer, defs_handedOut hH ds hds outer⟩

end

end Closed

structure Complete (done : List Event) (p : Program) : Prop where
  distinct : ((handedOut done).flatMap Part.created ++ [p.defs.node.id]).Nodup
  typed : ∀ o ∈ p.occurrences, o.item.part ∈ handedOut done ∧
    ∃ type, o.item.part.derivedType p.tables = some type ∧ p.tables.types[o.id]? = some type
  params : ∀ outer n x ps t body, ⟨outer, .defn (.func n x ps t body)⟩ ∈ p.occurrences →
    ∀ q ∈ ps, ∃ type, q.type.type = some type ∧ p.tables.types[q.node.id]? = some type
  names : ∀ outer n x, ⟨outer, .expr (.name n x)⟩ ∈ p.occurrences →
    ∃ target : Named, ⟨.name target, some (.expr (.name n x))⟩ ∈ done ∧
      p.tables.bindings[n.id]? = some target.ref.id
  calls : ∀ outer n x args, ⟨outer, .expr (.call n x args)⟩ ∈ p.occurrences →
    (∃ s : Signature, ⟨.call s args, some (.expr (.call n x args))⟩ ∈ done ∧
      p.tables.bindings[n.id]? = some s.node.id) ∨
    (⟨.callUnbound x args, some (.expr (.call n x args))⟩ ∈ done ∧
      p.tables.bindings[n.id]? = none)

lemma Request.name_of_gives {r : Request} {n : Node} {x : String} (h : r.Gives (.name n x)) :
    ∃ target, r = .name target := by
  cases r <;> first | exact ⟨_, rfl⟩ | exact h.elim

lemma Request.call_of_gives {r : Request} {n : Node} {x : String} {args : List Expr}
    (h : r.Gives (.call n x args)) : (∃ s, r = .call s args) ∨ r = .callUnbound x args := by
  cases r with
  | call s args' =>
    obtain ⟨-, rfl⟩ := h
    exact .inl ⟨s, rfl⟩
  | callUnbound y args' =>
    obtain ⟨rfl, rfl⟩ := h
    exact .inr rfl
  | _ => exact h.elim

lemma nodup_numbers {n : Nat} (hn : n ≤ UInt32.size) :
    ((List.range n).map (Ident.ofNat : Nat → NodeId)).Nodup := by
  have hnat : ∀ i ∈ List.range n, (Ident.ofNat i : NodeId).toNat = i := fun i hi =>
    Ident.toNat_ofNat_of_lt (Nat.lt_of_lt_of_le (List.mem_range.mp hi) hn)
  refine List.Nodup.map_on (fun i hi j hj hij => ?_) List.nodup_range
  rw [← hnat i hi, hij, hnat j hj]

lemma History.complete {done : List Event} {b b' : Builder} (h : History done b) {ds : List Def}
    {p : Program} (hds : ds.map .defn ⊆ handedOut done)
    (hf : (finish ds).run b = .ok (p, b')) (hn : b'.nextId ≤ UInt32.size) : Complete done p := by
  cases hf
  have h := h.accounts (Nat.le_of_succ_le hn)
  have hout := defs_handedOut h.closed ds hds []
  refine ⟨?_, fun o ho => ⟨hout o ho, ?_⟩, fun outer n x ps t body ho q hq => ?_,
    fun outer n x ho => ?_, fun outer n x args ho => ?_⟩
  · have hnumbers := h.numbers_append (makes_put hn none none)
    exact hnumbers.symm ▸ nodup_numbers hn
  · have htype := (h.noted _ (hout o ho)).type
    rw [Item.part_node] at htype
    exact htype
  · have hq := h.closed _ (hout _ ho) (List.mem_cons_of_mem _ (List.mem_map_of_mem hq))
    exact (h.noted _ hq).type
  · obtain ⟨r, hr⟩ := mem_handedOut.mp (hout _ ho)
    obtain ⟨hg, hb⟩ := h.given r _ hr
    obtain ⟨target, rfl⟩ := Request.name_of_gives hg
    exact ⟨target, hr, hb⟩
  · obtain ⟨r, hr⟩ := mem_handedOut.mp (hout _ ho)
    obtain ⟨hg, hb⟩ := h.given r _ hr
    rcases Request.call_of_gives hg with ⟨s, rfl⟩ | rfl
    · exact .inl ⟨s, hr, hb⟩
    · exact .inr ⟨hr, hb⟩

end Builder

end Source

namespace Lowering

/-- The failure is not for want of a type. It is for want of a definition only if a call is bound to
none and is not one of an intrinsic. -/
def Error.IsExcused (p : Source.Program) (e : Error) : Prop :=
  match e.cause with
  | .missingType _ => False
  | .missingDefinition x => ∃ outer n args,
      ⟨outer, .expr (.call n x args)⟩ ∈ p.occurrences ∧ n.span = e.span ∧
        p.tables.bindings[n.id]? = none ∧ Intrinsic.ofName? x = none
  | .notAssignable | .indexOutOfBounds _ _ | .notAnArray | .missingEntry _ | .missingFrame _
  | .missingAccess _ | .deeperThanUse _ _ _ => True

section Excused

variable {P : Error → Prop} {scope : Scope} {level : Nat} {n : Node} {x : String}

lemma enclosing_failsOnly {target : Nat} (h : P ⟨.deeperThanUse x target level, n.span⟩) :
    FailsOnly P (enclosing level target x n.span) := by
  unfold enclosing
  split
  · exact .pure _
  · exact .fail h

lemma name_failsOnly {target : NodeId} {type : Ty}
    (hb : scope.tables.bindings[n.id]? = some target) (ht : scope.tables.types[n.id]? = some type)
    (ha : P ⟨.missingAccess x, n.span⟩) (hd : ∀ target, P ⟨.deeperThanUse x target level, n.span⟩) :
    FailsOnly P (expr scope level (.name n x)) := by
  have haddress : ∀ a, FailsOnly P (address level x n.span a) := by
    intro a
    cases a with
    | global size label => exact .pure _
    | stack size offset target => exact (enclosing_failsOnly (hd target)).bind fun _ => .pure _
    | param size offset target => exact (enclosing_failsOnly (hd target)).bind fun _ => .pure _
  have hbound : scope.tables.bindings[n.id]? = none → P ⟨.missingDefinition x, n.span⟩ :=
    fun h => by cases hb.symm.trans h
  have htyped : scope.tables.types[n.id]? = none → P ⟨.missingType n.id, n.span⟩ :=
    fun h => by cases ht.symm.trans h
  have hvar : FailsOnly P (variableName scope level n x) :=
    .require_bind hbound fun _ _ => .require_bind (fun _ => ha) fun a _ =>
      (haddress a).bind fun _ => .require_bind htyped fun _ _ => .pure _
  exact hvar.bind fun _ => .pure _

variable {p : Source.Program} {l : Layout} {done : List Builder.Event}

lemma callee_failsOnly {outer : List NodeId} {args : List Expr}
    (ho : ⟨outer, .expr (.call n x args)⟩ ∈ p.occurrences) :
    FailsOnly (Error.IsExcused p) (callee (p.scope l) level n x) := by
  unfold callee
  cases hb : (p.scope l).tables.bindings[n.id]? with
  | some target =>
    refine .require_bind (fun _ => trivial) fun frame _ => ?_
    dsimp only
    split
    · exact (FailsOnly.pure _).bind fun _ => .pure _
    · exact (enclosing_failsOnly trivial).bind fun _ => .pure _
  | none =>
    exact .require_bind (fun hi => ⟨outer, n, args, ho, rfl, hb, hi⟩) fun _ _ => .pure _

lemma covers_excused (h : Builder.Complete done p) :
    Covers (Error.IsExcused p) (p.scope l) (fun _ _ => True) p.occurrences where
  notAssignable _ := trivial
  outOfBounds _ _ _ := trivial
  notAnArray _ := trivial
  type outer e ho := by
    obtain ⟨-, type, -, ht⟩ := h.typed _ ho
    exact .of_ok fun st => ⟨(type, st), typeOf_ok.mpr ⟨ht, rfl⟩⟩
  name outer n x ho level _ := by
    obtain ⟨-, type, -, ht⟩ := h.typed _ ho
    obtain ⟨target, -, hb⟩ := h.names outer n x ho
    exact name_failsOnly hb ht trivial fun _ => trivial
  callee _ _ _ _ ho _ _ := callee_failsOnly ho
  access _ _ _ _ _ := .require_bind (fun _ => trivial) fun a _ => by
    cases a <;> first | exact .emit _ | exact .pure _
  frame _ _ _ _ _ _ _ _ := trivial
  level _ _ _ _ _ _ _ _ _ := trivial

end Excused

end Lowering

namespace Source.Builder.Complete

variable {done : List Event} {p : Program}

lemma isTyped (h : Complete done p) : p.occurrences.all p.isTyped = true := by
  rw [List.all_eq_true]
  rintro ⟨outer, item⟩ ho
  obtain ⟨-, type, -, ht⟩ := h.typed _ ho
  have hknows : p.knows item.node = true := Option.isSome_iff_exists.mpr ⟨type, ht⟩
  rw [Program.isTyped, hknows, Bool.true_and]
  cases item with
  | expr e => rfl
  | defn d =>
    cases d with
    | var n x t => rfl
    | type n x t => rfl
    | func n x ps t b =>
      refine List.all_eq_true.mpr fun q hq => ?_
      obtain ⟨type, -, ht⟩ := h.params outer n x ps t b ho q hq
      exact Option.isSome_iff_exists.mpr ⟨type, ht⟩

lemma lower_isExcused (h : Complete done p) {l : Layout} {entry : String} {e : Lowering.Error}
    (he : p.lower l entry = .error e) : e.IsExcused p :=
  Program.lower_failsOnly (defs_failsOnly (covers_excused h) _ fun _ ho => ho)
    (fun _ => trivial) (fun _ _ _ => trivial) he

end Source.Builder.Complete

open Source.Builder in
/-- Whatever calls of the builder lead to a program, its nodes are distinct and its tables complete.
It can be laid out, and its lowering misses no type and nothing that a name stands for. -/
theorem built_tables_complete {done : List Event} {b b' : Builder} {ds : List Def}
    {p : Source.Program} (h : History done b) (hds : ds.map .defn ⊆ handedOut done)
    (hf : (finish ds).run b = .ok (p, b')) (hn : b'.nextId ≤ UInt32.size) :
    Complete done p ∧ (∃ l, p.layout = .ok l) ∧
      (∀ entry e, p.compile entry = .error e → ∃ e', e = .lowering e' ∧ e'.IsExcused p) ∧
      ∀ outer n x, ⟨outer, .expr (.name n x)⟩ ∈ p.occurrences → ∀ l level st e,
        (Lowering.expr (p.scope l) level (.name n x)).run st = .error e →
          ∀ y, e.cause ≠ .missingDefinition y := by
  have hc := h.complete hds hf hn
  obtain ⟨l, hl⟩ := Layout.layout_of_typed hc.isTyped
  refine ⟨hc, ⟨l, hl⟩, fun entry e he => ?_, fun outer n x ho l level => ?_⟩
  · obtain ⟨e', rfl, he'⟩ := Source.Program.compile_error hl he
    exact ⟨e', rfl, hc.lower_isExcused he'⟩
  · obtain ⟨-, type, -, ht⟩ := hc.typed _ ho
    obtain ⟨target, -, hb⟩ := hc.names outer n x ho
    exact name_failsOnly (P := fun e => ∀ y, e.cause ≠ .missingDefinition y) hb ht
      (fun _ h => by cases h) (fun _ _ h => by cases h)

/-- One name is used twice, and a call is bound to nothing.
```text
fun main(n: integer): integer = { log_int(n); n }
```
-/
def sharedName : Build Source.Program := do
  let n ← Builder.param "n" .int
  let main ← Builder.signature "main" [n] .int
  let use ← Builder.name n.ref
  let body ← Builder.block [← Builder.callUnbound "log_int" [use], use]
  Builder.finish [Builder.func main body]

open Source.Builder in
theorem built_tables_complete_shared :
    ∃ done p e, Builder.run sharedName = .ok p ∧ Complete done p ∧
      p.compile "main" = .error (.lowering e) ∧ e.cause = .missingDefinition "log_int" ∧
        e.IsExcused p := by
  have h₁ := History.start.step (.param "n" .int) (List.nil_subset _) rfl
  have h₂ := h₁.step (.signature "main" [_] .int) (passed 0 rfl (List.nil_subset _)) rfl
  have h₃ := h₂.step (.name (.param _)) (passed 0 rfl (List.nil_subset _)) rfl
  have h₄ := h₃.step (.callUnbound "log_int" [_]) (passed 2 rfl (List.nil_subset _)) rfl
  have h₅ := h₄.step (.block [_, _]) (passed 3 rfl (passed 2 rfl (List.nil_subset _))) rfl
  have h₆ := h₅.step (.func _ _) (passed 1 rfl (passed 4 rfl (List.nil_subset _))) rfl
  obtain ⟨hc, -, herror, -⟩ := built_tables_complete h₆
    (show [_].map Part.defn ⊆ _ from passed 5 rfl (List.nil_subset _)) rfl (by decide)
  suffices he : Source.Program.compile _ "main" =
      .error (.lowering ⟨.missingDefinition "log_int", .point 1 1⟩) by
    obtain ⟨e, h, hexcused⟩ := herror "main" _ he
    cases h
    exact ⟨_, _, _, rfl, hc, he, rfl, hexcused⟩
  decide +kernel

end BlockLang
