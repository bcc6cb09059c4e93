import BlockLang.Compile
import BlockLang.Machine.Run
import BlockLang.Proofs.LayoutTables
import BlockLang.Proofs.LoweringItems
import BlockLang.Source.Builder

namespace BlockLang

open Source Code Lowering

lemma exists_ok_of_any {ε α : Type} {x : Except ε α} {f : α → Bool}
    (h : x.toOption.any f = true) : ∃ a, x = .ok a ∧ f a = true := by
  cases x with
  | error e => cases h
  | ok a => exact ⟨a, rfl, h⟩

lemma exists_loaded_of_any (b : Build Source.Program) (setup : Setup) (f : Source.Program → Bool)
    (g : Image → Machine → Bool)
    (h : ((Builder.run b).toOption.any fun p => f p && (p.compile "main").toOption.any fun code =>
      (Image.load code setup).toOption.any fun state => g state.1 state.2) = true) :
    ∃ p code image m, Builder.run b = .ok p ∧ f p = true ∧ p.compile "main" = .ok code ∧
      Image.load code setup = .ok (image, m) ∧ g image m = true := by
  obtain ⟨p, hb, h⟩ := exists_ok_of_any h
  obtain ⟨hf, h⟩ := Bool.and_eq_true_iff.mp h
  obtain ⟨code, hc, h⟩ := exists_ok_of_any h
  obtain ⟨⟨image, m⟩, hl, hg⟩ := exists_ok_of_any h
  exact ⟨p, code, image, m, hb, hf, hc, hl, hg⟩

lemma eq_of_nodup_filterMap {α β : Type} {f : α → Option β} {as : List α}
    (h : (as.filterMap f).Nodup) {a a' : α} (ha : a ∈ as) (ha' : a' ∈ as) {b : β}
    (hb : f a = some b) (hb' : f a' = some b) : a = a' := by
  induction as with
  | nil => cases ha
  | cons c as ih =>
    have hrest : (as.filterMap f).Nodup := ((List.sublist_cons_self c as).filterMap f).nodup h
    have hnot : ∀ d ∈ as, f d = some b → f c ≠ some b := by
      intro d hd hdb hc
      rw [List.filterMap_cons_some hc, List.nodup_cons] at h
      exact h.1 (List.mem_filterMap.mpr ⟨d, hd, hdb⟩)
    rcases List.mem_cons.mp ha with rfl | hm
    · rcases List.mem_cons.mp ha' with rfl | hm'
      · rfl
      · exact (hnot a' hm' hb' hb).elim
    · rcases List.mem_cons.mp ha' with rfl | hm'
      · exact (hnot a hm hb hb').elim
      · exact ih hrest hm hm'

namespace Source.Program

def scope (p : Program) (layout : Layout) : Scope := ⟨p.tables, layout.frames, layout.accesses⟩

structure Compiles (p : Program) (entry : String) (code : Code.Program) (layout : Layout)
    (st : State) : Prop where
  layout_eq : p.layout = .ok layout
  run : (Lowering.defs (p.scope layout) p.defs.definitions).run { labels := layout.labels } = .ok ((), st)
  chunks : code.chunks = st.chunks.toList
  entry : ∃ d frame, entryDef? p.defs.definitions entry = some d ∧
    layout.frames[d.node.id]? = some frame ∧ code.entry = frame.label

lemma lower_ok {p : Program} {layout : Layout} {entry : String} {code : Code.Program} :
    p.lower layout entry = .ok code ↔
      ∃ d frame st, entryDef? p.defs.definitions entry = some d ∧
        layout.frames[d.node.id]? = some frame ∧
        (Lowering.defs (p.scope layout) p.defs.definitions).run { labels := layout.labels } =
          .ok ((), st) ∧ code = ⟨st.chunks.toList, frame.label⟩ := by
  unfold lower
  cases hd : entryDef? p.defs.definitions entry with
  | none => simp [throw, throwThe, MonadExceptOf.throw]
  | some d =>
    cases hf : layout.frames[d.node.id]? with
    | none => simp [hf, throw, throwThe, MonadExceptOf.throw]
    | some frame =>
      have hs : p.scope layout = ⟨p.tables, layout.frames, layout.accesses⟩ := rfl
      cases hr : (Lowering.defs (p.scope layout) p.defs.definitions).run
          { labels := layout.labels } with
      | error e => simp [hf, ← hs, hr, bind, Except.bind]
      | ok r =>
        obtain ⟨u, st⟩ := r
        simp [hf, ← hs, hr, bind, Except.bind, pure, Except.pure, eq_comm]

theorem compile_ok {p : Program} {entry : String} {code : Code.Program} :
    p.compile entry = .ok code ↔ ∃ layout st, p.Compiles entry code layout st := by
  unfold compile compileWith
  cases hl : p.layout with
  | error e =>
    simp only [Except.mapError, bind, Except.bind, reduceCtorEq, false_iff]
    rintro ⟨layout, st, h⟩
    cases hl.symm.trans h.layout_eq
  | ok layout =>
    have hc : (p.lower layout entry).mapError CompileError.lowering = .ok code ↔
        p.lower layout entry = .ok code := by
      cases p.lower layout entry <;> simp [Except.mapError]
    simp only [Except.mapError, bind, Except.bind]
    refine hc.trans (lower_ok.trans ?_)
    constructor
    · rintro ⟨d, frame, st, hd, hf, hr, rfl⟩
      exact ⟨layout, st, hl, hr, rfl, d, frame, hd, hf, rfl⟩
    · rintro ⟨layout', st, h⟩
      obtain rfl := Except.ok.inj (hl.symm.trans h.layout_eq)
      obtain ⟨d, frame, hd, hf, he⟩ := h.entry
      refine ⟨d, frame, st, hd, hf, h.run, ?_⟩
      obtain ⟨chunks, e⟩ := code
      obtain rfl : chunks = _ := h.chunks
      obtain rfl : e = _ := he
      rfl

namespace Compiles

variable {p : Program} {entry : String} {code : Code.Program} {layout : Layout} {st : State}

lemma accounts (h : p.Compiles entry code layout st) :
    Accounts (p.scope layout) p.occurrences { labels := layout.labels } st :=
  defs_accounts h.run []

lemma origin (h : p.Compiles entry code layout st) {c : Chunk} (hc : c ∈ code.chunks) :
    ∃ o ∈ p.occurrences, ∃ cs, Emission (p.scope layout) code.chunks o.item cs ∧ c ∈ cs := by
  rw [h.chunks] at hc ⊢
  exact (h.accounts.origin hc).resolve_left (List.not_mem_nil)

lemma emission (h : p.Compiles entry code layout st) {o : Occurrence} (ho : o ∈ p.occurrences) :
    ∃ cs, Emission (p.scope layout) code.chunks o.item cs ∧ ∀ c ∈ cs, c ∈ code.chunks := by
  rw [h.chunks]
  exact h.accounts.emission ho

lemma code_of_frame (h : p.Compiles entry code layout st) {i : NodeId} {f : Frame}
    (hf : layout.frames[i]? = some f) : ∃ body, .code f body ∈ code.chunks := by
  obtain ⟨outer, n, x, ps, t, b, ho, rfl⟩ :=
    mem_functionIds.mp (Layout.layout_frame h.layout_eq hf)
  obtain ⟨cs, he, hc⟩ := h.emission ho
  cases he with
  | code hf' hr hs =>
    obtain rfl := Option.some.inj (hf.symm.trans hf')
    exact ⟨_, hc _ (List.mem_singleton_self _)⟩

lemma global_of_access (h : p.Compiles entry code layout st) {i : NodeId} {size : Int} {l : Label}
    (ha : layout.accesses[i]? = some (.global size l)) : .global (.global size l) ∈ code.chunks := by
  obtain ⟨n, x, t, type, hd, rfl, -, -, -⟩ := Layout.layout_global h.layout_eq ha
  have ho : (⟨[], .defn (.var n x t)⟩ : Occurrence) ∈ p.occurrences := by
    rw [Program.occurrences, Def.occurrencesAll_eq]
    exact List.mem_flatMap.mpr ⟨_, hd, List.mem_singleton_self _⟩
  obtain ⟨cs, he, hc⟩ := h.emission ho
  cases he with
  | global ha' =>
    obtain ⟨rfl, rfl⟩ := Access.global.inj (Option.some.inj (ha.symm.trans ha'))
    exact hc _ (List.mem_singleton_self _)
  | stack ha' => cases ha.symm.trans ha'
  | param ha' => cases ha.symm.trans ha'

lemma code_origin (h : p.Compiles entry code layout st) {frame : Frame} {body : Stm}
    (hm : .code frame body ∈ code.chunks) :
    ∃ outer n x ps t b r st₁ st₂, (⟨outer, .defn (.func n x ps t b)⟩ : Occurrence) ∈ p.occurrences ∧
      layout.frames[n.id]? = some frame ∧
      (expr (p.scope layout) frame.level b).run st₁ = .ok (r, st₂) ∧
      st₂.chunks.toList ⊆ code.chunks ∧
      body = ((returning r.toExp).linearize st₂.nextTemp).1 := by
  obtain ⟨⟨outer, item⟩, ho, cs, he, hc⟩ := h.origin hm
  cases he with
  | @code n x ps t b frame' r st₁ st₂ hf hr hs =>
    obtain ⟨rfl, rfl⟩ : frame = frame' ∧ body = _ := by simpa using hc
    exact ⟨outer, n, x, ps, t, b, r, st₁, st₂, ho, hf, hr, hs, rfl⟩
  | global ha => simp at hc
  | stack ha => simp at hc
  | param ha => simp at hc
  | type => simp at hc
  | text => simp at hc
  | expr h => simp at hc

end Compiles

end Source.Program

end BlockLang
