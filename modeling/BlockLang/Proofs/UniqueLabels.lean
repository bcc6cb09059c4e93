import BlockLang.Proofs.Compilation
import BlockLang.Proofs.FreshLabels
import BlockLang.Source.Builder

namespace BlockLang

open Source Code Lowering

def Label.isAnonymous : Label → Bool
  | .anonymous _ => true
  | .named _ => false

namespace Code

def Chunk.frames : Chunk → List Frame
  | .code f _ => [f]
  | .data _ _ | .global _ => []

def Chunk.labels : Chunk → List Label
  | .code f s => f.label :: labelsOf (controlsOf s.statements)
  | .data (.global _ l) _ | .global (.global _ l) => [l]
  | .data (.stack _ _ _) _ | .data (.param _ _ _) _ | .global (.stack _ _ _)
  | .global (.param _ _ _) => []

def Program.labels (p : Program) : List Label := p.chunks.flatMap Chunk.labels

lemma count_label (code : List Stm) (l : Label) :
    code.count (.label l) = (labelsOf (controlsOf code)).count l := by
  induction code with
  | nil => rfl
  | cons s code ih =>
    have hc : controlsOf (s :: code) = controlsOf [s] ++ controlsOf code := by
      rw [← controlsOf_append]
      rfl
    rw [hc, labelsOf_append, List.count_append, ← ih, List.count_cons, Nat.add_comm]
    congr 1
    cases s with
    | label l' => simp [controlsOf, labelsOf, Stm.control?, List.count_cons]
    | _ => rfl

lemma Chunk.count_labels (c : Chunk) {k : Nat}
    (hg : ∀ size l, c = .global (.global size l) → l ≠ .anonymous k) :
    c.labels.count (.anonymous k) =
      (c.frames.map Frame.label).count (.anonymous k) +
        (labelsOf c.controls).count (.anonymous k) := by
  match c with
  | .code f s =>
    simp only [labels, controls, frames, List.map_cons, List.map_nil, List.count_cons,
      List.count_nil]
    omega
  | .data (.global size l) text => simp [labels, controls, frames, labelsOf]
  | .data (.stack _ _ _) _ => rfl
  | .data (.param _ _ _) _ => rfl
  | .global (.global size l) =>
    have hl := hg size l rfl
    simp [labels, controls, frames, labelsOf, hl]
  | .global (.stack _ _ _) => rfl
  | .global (.param _ _ _) => rfl

lemma count_labels {cs : List Chunk} {k : Nat}
    (hg : ∀ size l, .global (.global size l) ∈ cs → l ≠ .anonymous k) :
    (cs.flatMap Chunk.labels).count (.anonymous k) =
      ((cs.flatMap Chunk.frames).map Frame.label).count (.anonymous k) +
        (labelsOf (cs.flatMap Chunk.controls)).count (.anonymous k) := by
  induction cs with
  | nil => rfl
  | cons c cs ih =>
    have ih := ih fun size l hm => hg size l (List.mem_cons_of_mem _ hm)
    have hc := c.count_labels fun size l h => hg size l (h ▸ List.mem_cons_self ..)
    simp only [List.flatMap_cons, List.map_append, labelsOf_append, List.count_append, ih, hc]
    omega

end Code

lemma Lowering.forall₂_frames {scope : Scope} {all : List Chunk} {os : List Occurrence}
    {css : List (List Chunk)}
    (h : List.Forall₂ (fun o cs => Emission scope all o.item cs) os css) :
    List.Forall₂ (fun i f => scope.frames[i]? = some f) (functionIds os)
      (css.flatten.flatMap Chunk.frames) := by
  rw [functionIds, List.filterMap_eq_flatMap_toList]
  refine forall₂_flatMap h fun o _ cs ho => ?_
  obtain ⟨outer, item⟩ := o
  cases ho with
  | code hf hr hc => exact .cons hf .nil
  | global ha => exact .nil
  | stack ha => exact .nil
  | param ha => exact .nil
  | type => exact .nil
  | text => exact .nil
  | expr h => exact .nil

namespace Layout

variable {layout : Layout} {ids : List NodeId} {fs : List Frame}

lemma exists_id_of_mem (h : List.Forall₂ (fun i f => layout.frames[i]? = some f) ids fs) {f : Frame}
    (hf : f ∈ fs) : ∃ i ∈ ids, layout.frames[i]? = some f := by
  induction h with
  | nil => cases hf
  | @cons i g ids fs hi _ ih =>
    rcases List.mem_cons.mp hf with rfl | hf
    · exact ⟨i, List.mem_cons_self .., hi⟩
    · obtain ⟨j, hj, hfj⟩ := ih hf
      exact ⟨j, List.mem_cons_of_mem _ hj, hfj⟩

lemma Labelled.count_le_one (hl : layout.Labelled)
    (h : List.Forall₂ (fun i f => layout.frames[i]? = some f) ids fs) (hn : ids.Nodup) (k : Nat) :
    (fs.map Frame.label).count (.anonymous k) ≤ 1 := by
  induction h with
  | nil => exact Nat.zero_le _
  | @cons i f ids fs hf hfs ih =>
    rw [List.nodup_cons] at hn
    rw [List.map_cons, List.count_cons]
    split
    · rename_i hk
      have hrest : Label.anonymous k ∉ fs.map Frame.label := by
        intro hm
        obtain ⟨g, hg, hk'⟩ := List.mem_map.mp hm
        obtain ⟨j, hj, hgj⟩ := exists_id_of_mem hfs hg
        exact hn.1 (hl.inj i j f g k hf hgj (eq_of_beq hk) hk' ▸ hj)
      exact Nat.le_of_eq (congrArg (· + 1) (List.count_eq_zero.mpr hrest))
    · exact ih hn.2

end Layout

namespace Source.Program.Compiles

variable {p : Program} {entry : String} {code : Code.Program} {layout : Layout} {st : State}

lemma numbered (h : p.Compiles entry code layout st)
    (hp : Def.havePlainCounters p.defs.definitions = true) :
    Numbered layout.labels.used st.labels.used (code.chunks.flatMap Chunk.controls) ∧
      ∀ c ∈ code.chunks, Closed c.controls := by
  obtain ⟨new, hc, hn, hj⟩ := (defs_places _ hp h.run).chunks
  obtain rfl : code.chunks = new := h.chunks.trans hc
  exact ⟨hn, hj⟩

lemma nodup_labels (h : p.Compiles entry code layout st)
    (hp : Def.havePlainCounters p.defs.definitions = true) {frame : Frame} {body : Stm}
    (hm : .code frame body ∈ code.chunks) : (labelsOf (controlsOf body.statements)).Nodup := by
  have hsub : (controlsOf body.statements).Sublist (code.chunks.flatMap Chunk.controls) :=
    List.sublist_flatten_of_mem (List.mem_map_of_mem hm)
  exact (hsub.filterMap _).nodup (h.numbered hp).1.nodup

lemma forall₂_frames (h : p.Compiles entry code layout st) :
    List.Forall₂ (fun i f => layout.frames[i]? = some f) (functionIds p.occurrences)
      (code.chunks.flatMap Chunk.frames) := by
  obtain ⟨css, he, hc⟩ := h.accounts
  have hf := Lowering.forall₂_frames he
  rwa [h.chunks, hc, List.nil_append]

lemma global_named (h : p.Compiles entry code layout st) {size : Int} {l : Label}
    (hg : .global (.global size l) ∈ code.chunks) : ∃ x, l = .named x := by
  obtain ⟨⟨outer, item⟩, -, cs, he, hc⟩ := h.origin hg
  cases he with
  | global ha =>
    obtain ⟨rfl, rfl⟩ : size = _ ∧ l = _ := by simpa using hc
    obtain ⟨_, x, _, _, -, -, rfl, -⟩ := Layout.layout_global h.layout_eq ha
    exact ⟨x, rfl⟩
  | code hf hr hs => simp at hc
  | stack ha => simp at hc
  | param ha => simp at hc
  | type => simp at hc
  | text => simp at hc
  | expr h => simp at hc

end Source.Program.Compiles

/-- If the functions of a program have distinct numbers and its counters are plain, then no anonymous
label is defined twice, be it that of a function, of a string or in a body. Every jump goes to a
label that stands in its body exactly once. -/
theorem anonymous_labels_distinct {p : Source.Program} {entry : String} {code : Code.Program}
    (hf : (functionIds p.occurrences).Nodup)
    (hp : Def.havePlainCounters p.defs.definitions = true) (h : p.compile entry = .ok code) :
    (code.labels.filter Label.isAnonymous).Nodup ∧
      ∀ frame body, .code frame body ∈ code.chunks → ∀ s ∈ body.statements, ∀ l ∈ s.targets,
        body.statements.count (.label l) = 1 := by
  obtain ⟨layout, st, hc⟩ := Program.compile_ok.mp h
  obtain ⟨hn, hj⟩ := hc.numbered hp
  have hl := Layout.layout_labelled hc.layout_eq
  constructor
  · rw [List.nodup_iff_count_le_one]
    intro l
    cases l with
    | named x =>
      rw [List.count_eq_zero.mpr (by simp [Label.isAnonymous])]
      exact Nat.zero_le _
    | anonymous k =>
      rw [List.count_filter rfl, Code.Program.labels, count_labels]
      · by_cases hk : k < layout.labels.used
        · have hzero : Label.anonymous k ∉ labelsOf (code.chunks.flatMap Chunk.controls) := by
            intro hm
            obtain ⟨j, he, hle, -⟩ := hn.range _ hm
            obtain rfl := Label.anonymous.inj he
            omega
          rw [List.count_eq_zero.mpr hzero]
          exact hl.count_le_one hc.forall₂_frames hf k
        · have hzero : Label.anonymous k ∉ (code.chunks.flatMap Chunk.frames).map Frame.label := by
            intro hm
            obtain ⟨f, hfm, he⟩ := List.mem_map.mp hm
            obtain ⟨i, -, hi⟩ := Layout.exists_id_of_mem hc.forall₂_frames hfm
            exact hk (hl.used i f k hi he)
          rw [List.count_eq_zero.mpr hzero, Nat.zero_add]
          exact List.nodup_iff_count_le_one.mp hn.nodup _
      · intro size l hm he
        obtain ⟨x, rfl⟩ := hc.global_named hm
        cases he
  · intro frame body hm s hs l hl
    obtain ⟨c, hsc, hlc⟩ := s.control_of_mem_targets hl
    have hcs : c ∈ controlsOf body.statements := List.mem_filterMap.mpr ⟨s, hs, hsc⟩
    have hmem := mem_controlsOf_label.mp (hj _ hm c hcs l hlc)
    have hle := List.nodup_iff_count_le_one.mp (hc.nodup_labels hp hm) l
    have hpos := List.count_pos_iff.mpr hmem
    rw [← count_label] at hle
    omega

/-! A loop with a branch and a string in it, and a function inside of another one.
```text
fun main(): integer = {
    for i = 0, 3, 1: if i < 2 then print_str("low");
    twice(i)
} where var i: integer, fun twice(n: integer): integer = n + n
```
-/

def branchingLoop : Build Source.Program := do
  let main ← Builder.signature "main" [] .int
  let i ← Builder.var "i" .int
  let n ← Builder.param "n" .int
  let twice ← Builder.signature "twice" [n] .int
  let sum ← Builder.compute .add (← Builder.name n.ref) (← Builder.name n.ref)
  let body ← Builder.block [
    ← Builder.forLoop (← Builder.name i.ref) (← Builder.int 0) (← Builder.int 3) (← Builder.int 1)
      (← Builder.ifThen (← Builder.compute .lt (← Builder.name i.ref) (← Builder.int 2))
        (← Builder.callUnbound "print_str" [← Builder.string "low"])),
    ← Builder.call twice [← Builder.name i.ref]]
  Builder.finish [Builder.func main (← Builder.whereDefs body [i, Builder.func twice sum])]

def Code.Chunk.jumpsTo (labels : List Label) : Chunk → Bool
  | .code _ body => body.statements.flatMap Stm.targets = labels
  | .data _ _ | .global _ => false

theorem anonymous_labels_distinct_counter :
    ∃ p code frame body, Builder.run branchingLoop = .ok p ∧ p.compile "main" = .ok code ∧
      code.labels.filter Label.isAnonymous = [0, 6, 1, 2, 4, 5, 3].map .anonymous ∧
      (code.labels.filter Label.isAnonymous).Nodup ∧ .code frame body ∈ code.chunks ∧
      body.statements.flatMap Stm.targets = [2, 3, 4, 5, 1].map .anonymous ∧
      ∀ l ∈ body.statements.flatMap Stm.targets, body.statements.count (.label l) = 1 := by
  obtain ⟨p, hb, h⟩ : ∃ p, Builder.run branchingLoop = .ok p ∧
      (decide (functionIds p.occurrences).Nodup && Def.havePlainCounters p.defs.definitions &&
        (p.compile "main").toOption.any fun code =>
          decide (code.labels.filter Label.isAnonymous = [0, 6, 1, 2, 4, 5, 3].map .anonymous) &&
            code.chunks.any (Chunk.jumpsTo ([2, 3, 4, 5, 1].map .anonymous))) = true :=
    exists_ok_of_any (by decide +kernel)
  simp only [Bool.and_eq_true, decide_eq_true_eq] at h
  obtain ⟨⟨hf, hp⟩, hc⟩ := h
  obtain ⟨code, hc, hl⟩ := exists_ok_of_any hc
  simp only [Bool.and_eq_true, decide_eq_true_eq, List.any_eq_true] at hl
  obtain ⟨hl, chunk, hm, hjumps⟩ := hl
  obtain ⟨hn, htargets⟩ := anonymous_labels_distinct hf hp hc
  cases chunk with
  | data | global => cases hjumps
  | code frame body =>
    refine ⟨p, code, frame, body, hb, hc, hl, hn, hm, of_decide_eq_true hjumps, fun l hmem => ?_⟩
    obtain ⟨s, hs, hl⟩ := List.mem_flatMap.mp hmem
    exact htargets frame body hm s hs l hl

/-! A counter that is lowered once and placed four times brings its labels with it.
```text
fun main(): integer = {
    for a[{ if true then {}; 0 }] = 0, 2, 1: {};
    a[0]
} where var a: arr[1] integer
```
-/

def conditionalCounter : Build Source.Program := do
  let a ← Builder.var "a" (.array 1 .int)
  let main ← Builder.signature "main" [] .int
  let position ← Builder.block [
    ← Builder.ifThen (← Builder.log true) (← Builder.block []), ← Builder.int 0]
  let body ← Builder.block [
    ← Builder.forLoop (← Builder.index (← Builder.name a.ref) position) (← Builder.int 0)
      (← Builder.int 2) (← Builder.int 1) (← Builder.block []),
    ← Builder.index (← Builder.name a.ref) (← Builder.int 0)]
  Builder.finish [Builder.func main (← Builder.whereDefs body [a])]

theorem labels_repeated_by_counter :
    ∃ p code, Builder.run conditionalCounter = .ok p ∧ (functionIds p.occurrences).Nodup ∧
      p.compile "main" = .ok code ∧ code.labels.count (.anonymous 3) = 4 ∧
      ¬(code.labels.filter Label.isAnonymous).Nodup := by
  obtain ⟨p, hb, h⟩ : ∃ p, Builder.run conditionalCounter = .ok p ∧
      (decide (functionIds p.occurrences).Nodup &&
        (p.compile "main").toOption.any fun code => decide
          (code.labels.count (.anonymous 3) = 4)) = true :=
    exists_ok_of_any (by decide +kernel)
  simp only [Bool.and_eq_true, decide_eq_true_eq] at h
  obtain ⟨hf, hc⟩ := h
  obtain ⟨code, hc, hl⟩ := exists_ok_of_any hc
  have hcount := of_decide_eq_true hl
  refine ⟨p, code, hb, hf, hc, hcount, fun hn => ?_⟩
  have hle := List.nodup_iff_count_le_one.mp hn (.anonymous 3)
  rw [List.count_filter rfl] at hle
  omega

end BlockLang
