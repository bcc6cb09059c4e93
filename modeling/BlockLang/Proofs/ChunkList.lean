import BlockLang.Proofs.UniqueLabels

namespace BlockLang

open Source Code Lowering

namespace Source

mutual

def Expr.texts : Expr → List String
  | .literal _ (.string text) => [text]
  | .literal _ (.integer _) | .literal _ (.logical _) | .name _ _ => []
  | .unary _ _ e => e.texts
  | .binary _ _ l r => l.texts ++ r.texts
  | .call _ _ args => Expr.textsAll args
  | .block _ body => Expr.textsAll body
  | .ifThen _ c p => c.texts ++ p.texts
  | .ifElse _ c p q => c.texts ++ (p.texts ++ q.texts)
  | .whileLoop _ c b => c.texts ++ b.texts
  | .forLoop _ c l h s b => c.texts ++ (l.texts ++ (h.texts ++ (s.texts ++ b.texts)))
  | .whereDefs _ e _ ds => Def.textsAll ds ++ e.texts

def Expr.textsAll : List Expr → List String
  | [] => []
  | e :: es => e.texts ++ Expr.textsAll es

def Def.texts : Def → List String
  | .func _ _ _ _ b => b.texts
  | .var _ _ _ | .type _ _ _ => []

def Def.textsAll : List Def → List String
  | [] => []
  | d :: ds => d.texts ++ Def.textsAll ds

end

def Program.texts (p : Program) : List String := Def.textsAll p.defs.definitions

def Item.texts : Item → List String
  | .expr (.literal _ (.string text)) => [text]
  | _ => []

lemma Item.texts_expr {e : Expr} (h : e.isText = false) : (Item.expr e).texts = [] := by
  unfold Expr.isText at h
  split at h
  · cases h
  · rename_i hne
    unfold Item.texts
    split
    · exact (hne _ _ (Item.expr.inj ‹_›)).elim
    · rfl

def textsOf (os : List Occurrence) : List String := os.flatMap fun o => o.item.texts

@[simp] lemma textsOf_append (os os' : List Occurrence) :
    textsOf (os ++ os') = textsOf os ++ textsOf os' :=
  List.flatMap_append

lemma textsOf_append_expr {os : List Occurrence} {outer : List NodeId} {e : Expr}
    (h : e.isText = false) : textsOf (os ++ [⟨outer, .expr e⟩]) = textsOf os := by
  have hself : textsOf [⟨outer, .expr e⟩] = [] := by simp [textsOf, Item.texts_expr h]
  rw [textsOf_append, hself, List.append_nil]

mutual

lemma Expr.textsOf_occurrences (e : Expr) (outer : List NodeId) :
    textsOf (e.occurrences outer) = e.texts := by
  cases e with
  | literal n v => cases v <;> rfl
  | name n x => rfl
  | unary n op x =>
    rw [Expr.occurrences, textsOf_append_expr rfl, Expr.texts, x.textsOf_occurrences]
  | binary n op x y =>
    rw [Expr.occurrences, textsOf_append_expr rfl, Expr.texts, textsOf_append,
      x.textsOf_occurrences, y.textsOf_occurrences]
  | call n f args =>
    rw [Expr.occurrences, textsOf_append_expr rfl, Expr.texts, Expr.textsOf_occurrencesAll args]
  | block n body =>
    rw [Expr.occurrences, textsOf_append_expr rfl, Expr.texts, Expr.textsOf_occurrencesAll body]
  | ifThen n c p =>
    rw [Expr.occurrences, textsOf_append_expr rfl, Expr.texts, textsOf_append,
      c.textsOf_occurrences, p.textsOf_occurrences]
  | ifElse n c p q =>
    rw [Expr.occurrences, textsOf_append_expr rfl, Expr.texts]
    simp only [textsOf_append, c.textsOf_occurrences, p.textsOf_occurrences, q.textsOf_occurrences]
  | whileLoop n c b =>
    rw [Expr.occurrences, textsOf_append_expr rfl, Expr.texts, textsOf_append,
      c.textsOf_occurrences, b.textsOf_occurrences]
  | forLoop n c low high step b =>
    rw [Expr.occurrences, textsOf_append_expr rfl, Expr.texts]
    simp only [textsOf_append, c.textsOf_occurrences, low.textsOf_occurrences,
      high.textsOf_occurrences, step.textsOf_occurrences, b.textsOf_occurrences]
  | whereDefs n x m ds =>
    rw [Expr.occurrences, textsOf_append_expr rfl, Expr.texts, textsOf_append,
      Def.textsOf_occurrencesAll ds, x.textsOf_occurrences]

lemma Expr.textsOf_occurrencesAll (es : List Expr) (outer : List NodeId) :
    textsOf (Expr.occurrencesAll outer es) = Expr.textsAll es := by
  cases es with
  | nil => rfl
  | cons e es =>
    rw [Expr.occurrencesAll, Expr.textsAll, textsOf_append, e.textsOf_occurrences,
      Expr.textsOf_occurrencesAll es]

lemma Def.textsOf_occurrences (d : Def) (outer : List NodeId) :
    textsOf (d.occurrences outer) = d.texts := by
  cases d with
  | var n x t => rfl
  | func n x ps t b =>
    rw [Def.occurrences, Def.texts, textsOf_append, b.textsOf_occurrences]
    exact List.append_nil _
  | type n x t => rfl

lemma Def.textsOf_occurrencesAll (ds : List Def) (outer : List NodeId) :
    textsOf (Def.occurrencesAll outer ds) = Def.textsAll ds := by
  cases ds with
  | nil => rfl
  | cons d ds =>
    rw [Def.occurrencesAll, Def.textsAll, textsOf_append, d.textsOf_occurrences,
      Def.textsOf_occurrencesAll ds]

end

def Def.globals : Def → List (Node × String)
  | .var n x _ => [(n, x)]
  | .func _ _ _ _ _ | .type _ _ _ => []

def Program.globals (p : Program) : List (Node × String) := p.defs.definitions.flatMap Def.globals

def Item.globals : Item → List (Node × String)
  | .defn d => d.globals
  | .expr _ => []

def Occurrence.globals (o : Occurrence) : List (Node × String) :=
  if o.outer = [] then o.item.globals else []

lemma Def.globals_occurrences (d : Def) : (d.occurrences []).flatMap Occurrence.globals = d.globals := by
  cases d with
  | var n x t => rfl
  | type n x t => rfl
  | func n x ps t b =>
    refine List.flatMap_eq_nil_iff.mpr fun o ho => ?_
    rw [Def.occurrences, List.mem_append, Expr.occurrences_eq, List.mem_flatMap] at ho
    rcases ho with ⟨item, -, ho⟩ | ho
    · refine if_neg fun he => ?_
      have hsuffix : [n.id] <:+ o.outer := by
        cases item with
        | expr e =>
          obtain rfl := List.mem_singleton.mp ho
          exact List.suffix_rfl
        | defn d => exact d.outer_isSuffix [n.id] o ho
      rw [he] at hsuffix
      cases List.suffix_nil.mp hsuffix
    · obtain rfl := List.mem_singleton.mp ho
      rfl

lemma Program.globals_occurrences (p : Program) :
    p.occurrences.flatMap Occurrence.globals = p.globals := by
  rw [Program.occurrences, Def.occurrencesAll_eq, List.flatMap_assoc, Program.globals]
  exact List.flatMap_congr fun d _ => d.globals_occurrences

end Source

namespace Code

def Chunk.texts : Chunk → List String
  | .data _ text => [text]
  | .code _ _ | .global _ => []

def Chunk.globals : Chunk → List Access
  | .global access => [access]
  | .code _ _ | .data _ _ => []

def Chunk.textLabels : Chunk → List Label
  | .data (.global _ label) _ => [label]
  | .data (.stack _ _ _) _ | .data (.param _ _ _) _ | .code _ _ | .global _ => []

end Code

namespace Lowering

variable {scope : Scope}

structure TextsNumbered (st st' : State) : Prop where
  le : st.labels.used ≤ st'.labels.used
  labels : ∃ (cs : List Chunk) (ks : List Nat), st'.chunks.toList = st.chunks.toList ++ cs ∧
    cs.flatMap Chunk.textLabels = ks.map Label.anonymous ∧ ks.Pairwise (· < ·) ∧
    ∀ k ∈ ks, st.labels.used ≤ k ∧ k < st'.labels.used

namespace TextsNumbered

variable {st st₁ st' : State}

lemma of_idle (h : Idle st st') : TextsNumbered st st' :=
  ⟨h.labels, [], [], by simp [h.chunks], rfl, .nil, fun k hk => by cases hk⟩

lemma trans (h : TextsNumbered st st₁) (h' : TextsNumbered st₁ st') : TextsNumbered st st' := by
  obtain ⟨hle, cs, ks, hc, hl, hs, hk⟩ := h
  obtain ⟨hle', cs', ks', hc', hl', hs', hk'⟩ := h'
  refine ⟨Nat.le_trans hle hle', cs ++ cs', ks ++ ks', ?_, ?_, ?_, fun k hm => ?_⟩
  · rw [hc', hc, List.append_assoc]
  · rw [List.flatMap_append, hl, hl', List.map_append]
  · refine List.pairwise_append.mpr ⟨hs, hs', fun k hm k' hm' => ?_⟩
    exact Nat.lt_of_lt_of_le (hk k hm).2 (hk' k' hm').1
  · rcases List.mem_append.mp hm with hm | hm
    · exact ⟨(hk k hm).1, Nat.lt_of_lt_of_le (hk k hm).2 hle'⟩
    · exact ⟨Nat.le_trans hle (hk' k hm).1, (hk' k hm).2⟩

lemma push {c : Chunk} (hc : c.textLabels = []) (hl : st'.labels = st.labels)
    (hp : st'.chunks = st.chunks.push c) : TextsNumbered st st' :=
  ⟨hl ▸ Nat.le_refl _, [c], [], by simp [hp], by simp [hc], .nil, fun k hk => by cases hk⟩

lemma push_text {c : Chunk} (hc : c.textLabels = [.anonymous st.labels.used])
    (hl : st'.labels.used = st.labels.used + 1) (hp : st'.chunks = st.chunks.push c) :
    TextsNumbered st st' := by
  refine ⟨by omega, [c], [st.labels.used], by simp [hp], by simp [hc], List.pairwise_singleton _ _,
    fun k hk => ?_⟩
  obtain rfl := List.mem_singleton.mp hk
  omega

end TextsNumbered

lemma Emits.textsNumbered {is : List Item} {st st' : State} (h : Emits scope is st st')
    (hd : ∀ d, .defn d ∈ is → ∀ ⦃st st'⦄, (defn scope d).run st = .ok ((), st') →
      TextsNumbered st st') : TextsNumbered st st' := by
  induction h with
  | nil h => exact .of_idle h
  | @cons i is st st₁ st₂ st' h hi _ ih =>
    have hi' : TextsNumbered st₁ st₂ := by
      cases hi with
      | defn hi => exact hd _ (List.mem_cons_self ..) hi
      | expr hi => exact .of_idle .refl
      | text => exact .push_text rfl rfl rfl
    exact (TextsNumbered.of_idle h).trans (hi'.trans (ih fun d hm => hd d (List.mem_cons_of_mem _ hm)))

lemma defn_textsNumbered (d : Def) : ∀ ⦃st st' : State⦄, (defn scope d).run st = .ok ((), st') →
    TextsNumbered st st' := by
  induction d using Def.nested with
  | h d ih =>
  intro st st' h
  cases d with
  | var n x t =>
    obtain ⟨access, ha, rfl⟩ := defn_var_ok.mp h
    cases access with
    | global size label => exact .push rfl rfl rfl
    | stack size offset target => exact .of_idle .refl
    | param size offset target => exact .of_idle .refl
  | func n x ps t b =>
    obtain ⟨frame, r, st₁, hf, hr, rfl⟩ := defn_func_ok.mp h
    exact ((expr_emits b hr).textsNumbered ih).trans (.push rfl rfl rfl)
  | type n x t =>
    obtain rfl := defn_type_ok.mp h
    exact .of_idle .refl

end Lowering

namespace Source.Program.Compiles

variable {p : Program} {entry : String} {code : Code.Program} {layout : Layout} {st : State}

lemma chunks_texts (h : p.Compiles entry code layout st) :
    code.chunks.flatMap Chunk.texts = p.texts := by
  obtain ⟨css, he, hc⟩ := h.accounts
  have htexts : List.Forall₂ (· = ·) (textsOf p.occurrences) (css.flatten.flatMap Chunk.texts) := by
    refine forall₂_flatMap he fun o _ cs hcs => ?_
    obtain ⟨outer, item⟩ := o
    cases hcs with
    | code hf hr hs => exact .nil
    | global ha => exact .nil
    | stack ha => exact .nil
    | param ha => exact .nil
    | type => exact .nil
    | text => exact .cons rfl .nil
    | expr he =>
      rw [Item.texts_expr he]
      exact .nil
  rw [List.forall₂_eq_eq_eq] at htexts
  rw [h.chunks, hc, List.nil_append, ← htexts]
  exact Def.textsOf_occurrencesAll _ _

lemma chunks_globals (h : p.Compiles entry code layout st) (hn : p.ids.Nodup) :
    List.Forall₂ (fun v a => ∃ type, p.tables.types[v.1.id]? = some type ∧
        a = .global type.size (.named v.2)) p.globals (code.chunks.flatMap Chunk.globals) := by
  obtain ⟨css, he, hc⟩ := h.accounts
  rw [h.chunks, hc, List.nil_append, ← p.globals_occurrences]
  refine forall₂_flatMap he fun o ho cs hcs => ?_
  obtain ⟨outer, item⟩ := o
  by_cases hout : outer = []
  · have hglobals : Occurrence.globals ⟨outer, item⟩ = item.globals := if_pos hout
    rw [hglobals]
    cases hcs with
    | code hf hr hs => exact .nil
    | type => exact .nil
    | text => exact .nil
    | expr he => exact .nil
    | global ha =>
      obtain ⟨type, ht, hplace, -⟩ := Layout.layout_var h.layout_eq hn ho
      exact .cons ⟨type, ht, Option.some.inj (ha.symm.trans (hplace hout))⟩ .nil
    | stack ha =>
      obtain ⟨type, -, hplace, -⟩ := Layout.layout_var h.layout_eq hn ho
      cases ha.symm.trans (hplace hout)
    | param ha =>
      obtain ⟨type, -, hplace, -⟩ := Layout.layout_var h.layout_eq hn ho
      cases ha.symm.trans (hplace hout)
  · have hglobals : Occurrence.globals ⟨outer, item⟩ = [] := if_neg hout
    rw [hglobals]
    cases hcs with
    | global ha =>
      obtain ⟨type, -, -, hplace⟩ := Layout.layout_var h.layout_eq hn ho
      obtain ⟨offset, hplace⟩ := hplace hout
      cases ha.symm.trans hplace
    | _ => exact .nil

lemma chunks_textLabels (h : p.Compiles entry code layout st) :
    (code.chunks.flatMap Chunk.textLabels).Nodup := by
  obtain ⟨-, cs, ks, hc, hl, hs, -⟩ :=
    (defs_emits h.run).textsNumbered fun d _ => defn_textsNumbered d
  obtain rfl : code.chunks = cs := h.chunks.trans hc
  have hn : ks.Nodup := hs.imp Nat.ne_of_lt
  rw [hl]
  exact hn.map fun k k' he => Label.anonymous.inj he

lemma data_access (h : p.Compiles entry code layout st) {access : Access} {text : String}
    (hm : .data access text ∈ code.chunks) :
    ∃ k, access = .global (text.utf8ByteSize + 1) (.anonymous k) := by
  obtain ⟨⟨outer, item⟩, -, cs, he, hc⟩ := h.origin hm
  cases he with
  | text =>
    obtain ⟨rfl, rfl⟩ : access = _ ∧ text = _ := by simpa using hc
    exact ⟨_, rfl⟩
  | code hf hr hs => simp at hc
  | global ha => simp at hc
  | stack ha => simp at hc
  | param ha => simp at hc
  | type => simp at hc
  | expr h => simp at hc

end Source.Program.Compiles

/-- The code chunks are those of the functions with their frames, the global chunks those of the global
variables with their places, and the strings those of the program, each list in the order of lowering.
Every string has a label of its own, also if it is equal to another one, and room for one byte more. -/
theorem chunks_are_those_of_program {p : Source.Program} {entry : String} {code : Code.Program}
    (hn : p.ids.Nodup) (hc : p.compile entry = .ok code) :
    ∃ layout, p.layout = .ok layout ∧
      List.Forall₂ (fun i f => layout.frames[i]? = some f) (functionIds p.occurrences)
        (code.chunks.flatMap Chunk.frames) ∧
      List.Forall₂ (fun v a => ∃ type, p.tables.types[v.1.id]? = some type ∧
        a = .global type.size (.named v.2)) p.globals (code.chunks.flatMap Chunk.globals) ∧
      code.chunks.flatMap Chunk.texts = p.texts ∧
      (code.chunks.flatMap Chunk.textLabels).Nodup ∧
      ∀ access text, .data access text ∈ code.chunks →
        ∃ k, access = .global (text.utf8ByteSize + 1) (.anonymous k) := by
  obtain ⟨layout, st, h⟩ := Source.Program.compile_ok.mp hc
  exact ⟨layout, h.layout_eq, h.forall₂_frames, h.chunks_globals hn, h.chunks_texts,
    h.chunks_textLabels, fun access text hm => h.data_access hm⟩

/-! Equal strings, one of them in front of a nested function that has a string too.
```text
fun main(): integer =
  { print_str("a"); (print_str("a") where fun g(): integer = print_str("b")); 0 }
var x: integer
```
-/

def sameTexts : Build Source.Program := do
  let main ← Builder.signature "main" [] .int
  let g ← Builder.signature "g" [] .int
  let first ← Builder.callUnbound "print_str" [← Builder.string "a"]
  let inner ← Builder.callUnbound "print_str" [← Builder.string "b"]
  let second ← Builder.callUnbound "print_str" [← Builder.string "a"]
  let nested ← Builder.whereDefs second [Builder.func g inner]
  let body ← Builder.block [first, nested, ← Builder.int 0]
  Builder.finish [Builder.func main body, ← Builder.var "x" .int]

theorem chunks_are_those_of_program_same_texts :
    ∃ p code, Builder.run sameTexts = .ok p ∧ p.ids.Nodup ∧ p.compile "main" = .ok code ∧
      p.texts = ["a", "b", "a"] ∧ code.chunks.flatMap Chunk.texts = p.texts ∧
      (code.chunks.flatMap Chunk.textLabels).Nodup ∧
      (code.chunks.flatMap Chunk.frames).length = (functionIds p.occurrences).length ∧
      (code.chunks.flatMap Chunk.globals).length = p.globals.length := by
  obtain ⟨p, hb, h⟩ : ∃ p, Builder.run sameTexts = .ok p ∧
      (decide (p.ids.Nodup ∧ p.texts = ["a", "b", "a"]) &&
        (p.compile "main").toOption.any fun _ => true) = true :=
    exists_ok_of_any (by decide +kernel)
  obtain ⟨hp, h⟩ := Bool.and_eq_true_iff.mp h
  obtain ⟨hn, ht⟩ := of_decide_eq_true hp
  obtain ⟨code, hc, -⟩ := exists_ok_of_any h
  obtain ⟨layout, -, hframes, hglobals, htexts, hlabels, -⟩ := chunks_are_those_of_program hn hc
  exact ⟨p, code, hb, hn, hc, ht, htexts, hlabels, hframes.length_eq.symm, hglobals.length_eq.symm⟩

end BlockLang
