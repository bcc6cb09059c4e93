import BlockLang.Machine.Basic
import BlockLang.Proofs.Compilation
import BlockLang.Proofs.LinearCode

namespace BlockLang

open Source Code

lemma foldlM_ok {ε α β : Type} {f : β → α → Except ε β} (P : List α → β → Prop) {xs : List α}
    (hstep : ∀ done a b b', a ∈ xs → P done b → f b a = .ok b' → P (done ++ [a]) b')
    {d : List α} {b b' : β} (hb : P d b) (h : xs.foldlM f b = .ok b') : P (d ++ xs) b' := by
  induction xs generalizing d b with
  | nil =>
    obtain rfl := Except.ok.inj h
    rwa [List.append_nil]
  | cons a xs ih =>
    rw [List.foldlM_cons] at h
    cases ha : f b a with
    | error e =>
      rw [ha] at h
      cases h
    | ok b₁ =>
      rw [ha] at h
      have hb₁ := hstep d a b b₁ (List.mem_cons_self ..) hb ha
      have := ih (fun done x b b' hx => hstep done x b b' (List.mem_cons_of_mem _ hx)) hb₁ h
      rwa [List.append_assoc] at this

lemma foldlM_error {ε α β : Type} {f : β → α → Except ε β} {P : ε → Prop} {xs : List α}
    (hstep : ∀ a ∈ xs, ∀ b e, f b a = .error e → P e) {b : β} {e : ε}
    (h : xs.foldlM f b = .error e) : P e := by
  induction xs generalizing b with
  | nil => cases h
  | cons a xs ih =>
    rw [List.forall_mem_cons] at hstep
    rw [List.foldlM_cons] at h
    cases ha : f b a with
    | error e' =>
      rw [ha] at h
      obtain rfl := Except.error.inj h
      exact hstep.1 b e' ha
    | ok b₁ =>
      rw [ha] at h
      exact ih hstep.2 h

lemma Routine.ofBody_flat (frame : Frame) (s : Stm) (n : Temp) :
    Routine.ofBody frame (.seq (s.flat n).code) =
      .ok ⟨frame, (s.flat n).code.toArray, Routine.targetsOf (s.flat n).code⟩ := by
  have h : (Stm.seq (s.flat n).code).statements.all Stm.isLinear = true := s.linear_flat n
  rw [Routine.ofBody, if_pos h]
  rfl

def Code.Chunk.static? : Chunk → Option (Int × Label)
  | .data (.global size l) _ | .global (.global size l) => some (size, l)
  | .code _ _ | .data (.stack _ _ _) _ | .data (.param _ _ _) _ | .global (.stack _ _ _)
  | .global (.param _ _ _) => none

def Code.Chunk.isLoadable : Chunk → Bool
  | .code _ body => body.statements.all Stm.isLinear
  | c => c.static?.isSome

lemma Code.Chunk.isLoadable_cases {c : Chunk} (h : c.isLoadable = true) :
    (∃ frame body, c = .code frame body) ∨ ∃ size l, c.static? = some (size, l) := by
  cases c with
  | code frame body => exact .inl ⟨frame, body, rfl⟩
  | data access text =>
    obtain ⟨⟨size, l⟩, hl⟩ := Option.isSome_iff_exists.mp h
    exact .inr ⟨size, l, hl⟩
  | global access =>
    obtain ⟨⟨size, l⟩, hl⟩ := Option.isSome_iff_exists.mp h
    exact .inr ⟨size, l, hl⟩

namespace Memory

structure Takes (size : Int) (l : Label) (m m' : Memory) : Prop where
  labels : m'.labels = m.labels.insert l m.staticEnd
  staticEnd : m'.staticEnd = m.nextEnd size
  size_eq : m'.size = m.size
  fits : m'.staticEnd ≤ m'.size

lemma allocate_ok {m m' : Memory} {l : Label} {size a : Int} :
    m.allocate l size = .ok (a, m') ↔
      m.nextEnd size ≤ m.size ∧ a = m.staticEnd ∧
        m' = { m with labels := m.labels.insert l m.staticEnd, staticEnd := m.nextEnd size } := by
  unfold allocate
  by_cases h : m.nextEnd size ≤ m.size
  · simp [h, eq_comm]
  · simp [h]

lemma allocate_error {m : Memory} {l : Label} {size : Int} {e : Fault}
    (h : m.allocate l size = .error e) : ∃ a, e = .addressOutOfBounds a := by
  unfold allocate at h
  split at h
  · cases h
  · exact ⟨_, (Except.error.inj h).symm⟩

lemma storeText_error {m : Memory} {a : Int} {text : List UInt8} {e : Fault}
    (h : m.storeText a text = .error e) : ∃ a, e = .addressOutOfBounds a := by
  unfold storeText at h
  split at h
  · cases h
  · exact ⟨_, (Except.error.inj h).symm⟩

lemma takes_of_allocate {m m' : Memory} {l : Label} {size a : Int}
    (h : m.allocate l size = .ok (a, m')) : m.Takes size l m' := by
  obtain ⟨hfit, -, rfl⟩ := allocate_ok.mp h
  exact ⟨rfl, rfl, rfl, hfit⟩

lemma Takes.storeText {m m₁ m' : Memory} {l : Label} {size a : Int} {text : List UInt8}
    (ht : m.Takes size l m₁) (h : m₁.storeText a text = .ok m') : m.Takes size l m' := by
  unfold Memory.storeText at h
  split at h
  · obtain rfl := Except.ok.inj h
    have hsize : (m₁.write a (text ++ [0])).size = m₁.size := by
      simp [Memory.size, Memory.write, size_setBytes]
    exact ⟨ht.labels, ht.staticEnd, hsize.trans ht.size_eq, hsize ▸ ht.fits⟩
  · cases h

structure Static (m : Memory) (size : Int) : Prop where
  size_eq : m.size = size
  start : 8 ≤ m.staticEnd
  word : ∀ (l : Label) (a : Int), m.labels[l]? = some a → 8 ≤ a ∧ a + 8 ≤ m.staticEnd

lemma Static.new (n : Nat) : (Memory.new n).Static n :=
  ⟨by simp [Memory.new, Memory.size], Int.le_refl _, fun l a h => by simp [Memory.new] at h⟩

lemma Static.takes {m m' : Memory} {size n : Int} {l : Label} (h : m.Static size)
    (ht : m.Takes n l m') : m'.Static size := by
  have hstart := h.start
  have hgrow : m.staticEnd + 8 ≤ m'.staticEnd := by
    rw [ht.staticEnd, Memory.nextEnd]
    split <;> omega
  refine ⟨ht.size_eq.trans h.size_eq, by omega, fun l' a ha => ?_⟩
  rw [ht.labels, Std.TreeMap.getElem?_insert] at ha
  split at ha
  · obtain rfl := Option.some.inj ha
    omega
  · have hword := h.word l' a ha
    omega

end Memory

namespace Image

variable {state state' : Std.TreeMap Label Routine × Memory}

lemma loadChunk_code_ok {frame : Frame} {body : Stm} :
    loadChunk state (.code frame body) = .ok state' ↔
      ∃ r, Routine.ofBody frame body = .ok r ∧ state' = (state.1.insert frame.label r, state.2) := by
  simp only [loadChunk, bind, Except.bind, pure, Except.pure]
  cases Routine.ofBody frame body <;> simp [eq_comm]

lemma loadChunk_data_ok {size : Int} {l : Label} {text : String} :
    loadChunk state (.data (.global size l) text) = .ok state' ↔
      ∃ a m, state.2.allocate l size = .ok (a, m) ∧
        m.storeText a text.toUTF8.data.toList = .ok state'.2 ∧ state'.1 = state.1 := by
  simp only [loadChunk, globalLabel, Access.size, bind, Except.bind, pure, Except.pure]
  generalize text.toUTF8.data.toList = bytes
  cases state.2.allocate l size with
  | error e => simp
  | ok r =>
    obtain ⟨a, m⟩ := r
    cases hs : m.storeText a bytes with
    | error e => simp [hs]
    | ok m' => simp [hs, Prod.ext_iff, eq_comm, and_comm]

lemma loadChunk_global_ok {size : Int} {l : Label} :
    loadChunk state (.global (.global size l)) = .ok state' ↔
      ∃ a, state.2.allocate l size = .ok (a, state'.2) ∧ state'.1 = state.1 := by
  simp only [loadChunk, globalLabel, Access.size, bind, Except.bind, pure, Except.pure]
  cases state.2.allocate l size with
  | error e => simp
  | ok r => simp [Prod.ext_iff, eq_comm, and_comm]

lemma loadChunk_static {c : Chunk} {size : Int} {l : Label} (hc : c.static? = some (size, l))
    (h : loadChunk state c = .ok state') :
    state'.1 = state.1 ∧ state.2.Takes size l state'.2 := by
  match c with
  | .data (.global size' l') text =>
    obtain ⟨rfl, rfl⟩ : size' = size ∧ l' = l := by simpa [Chunk.static?] using hc
    obtain ⟨a, m, ha, hs, hr⟩ := loadChunk_data_ok.mp h
    exact ⟨hr, (Memory.takes_of_allocate ha).storeText hs⟩
  | .global (.global size' l') =>
    obtain ⟨rfl, rfl⟩ : size' = size ∧ l' = l := by simpa [Chunk.static?] using hc
    obtain ⟨a, ha, hr⟩ := loadChunk_global_ok.mp h
    exact ⟨hr, Memory.takes_of_allocate ha⟩

lemma isLoadable_of_loadChunk {c : Chunk} (h : loadChunk state c = .ok state') :
    c.isLoadable = true := by
  match c with
  | .code frame body =>
    obtain ⟨r, hr, -⟩ := loadChunk_code_ok.mp h
    unfold Routine.ofBody at hr
    split at hr
    · assumption
    · cases hr
  | .data (.global size l) text => rfl
  | .global (.global size l) => rfl
  | .data (.stack size offset level) text | .data (.param size offset level) text
  | .global (.stack size offset level) | .global (.param size offset level) => cases h

lemma loadChunk_error {c : Chunk} (hc : c.isLoadable = true) {e : Fault}
    (h : loadChunk state c = .error e) : ∃ a, e = .addressOutOfBounds a := by
  match c with
  | .code frame body =>
    have hl : body.statements.all Stm.isLinear = true := hc
    simp [loadChunk, Routine.ofBody, hl, bind, Except.bind, pure, Except.pure] at h
  | .data (.global size l) text =>
    simp only [loadChunk, globalLabel, Access.size, bind, Except.bind, pure, Except.pure] at h
    cases ha : state.2.allocate l size with
    | error e' =>
      rw [ha] at h
      obtain rfl := Except.error.inj h
      exact Memory.allocate_error ha
    | ok r =>
      obtain ⟨a, m⟩ := r
      rw [ha] at h
      dsimp only at h
      cases hs : m.storeText a text.toUTF8.data.toList with
      | error e' =>
        rw [hs] at h
        obtain rfl := Except.error.inj h
        exact Memory.storeText_error hs
      | ok m' =>
        rw [hs] at h
        cases h
  | .global (.global size l) =>
    simp only [loadChunk, globalLabel, Access.size, bind, Except.bind, pure, Except.pure] at h
    cases ha : state.2.allocate l size with
    | error e' =>
      rw [ha] at h
      obtain rfl := Except.error.inj h
      exact Memory.allocate_error ha
    | ok r =>
      rw [ha] at h
      cases h

structure Loaded (chunks : List Chunk) (state : Std.TreeMap Label Routine × Memory) : Prop where
  origin : ∀ (l : Label) (r : Routine), state.1[l]? = some r →
    ∃ frame body, .code frame body ∈ chunks ∧ frame.label = l ∧ Routine.ofBody frame body = .ok r
  routine : ∀ (frame : Frame) (body : Stm), .code frame body ∈ chunks →
    ∃ r, state.1[frame.label]? = some r
  static : ∀ c ∈ chunks, ∀ (size : Int) (l : Label), c.static? = some (size, l) →
    ∃ a, state.2.labels[l]? = some a

lemma getElem?_insert_of_some {α : Type} {t : Std.TreeMap Label α} {l l' : Label} {a b : α}
    (h : t[l]? = some a) : ∃ c, (t.insert l' b)[l]? = some c := by
  rw [Std.TreeMap.getElem?_insert]
  split
  · exact ⟨b, rfl⟩
  · exact ⟨a, h⟩

namespace Loaded

variable {chunks : List Chunk}

lemma nil {m : Memory} : Loaded [] (∅, m) := by
  refine ⟨fun l r h => ?_, fun frame body h => ?_, fun c h => ?_⟩
  · simp at h
  · simp at h
  · simp at h

lemma snoc (h : Loaded chunks state) {c : Chunk} (hs : loadChunk state c = .ok state') :
    Loaded (chunks ++ [c]) state' := by
  rcases Chunk.isLoadable_cases (isLoadable_of_loadChunk hs) with ⟨frame, body, rfl⟩ | ⟨size, l, hl⟩
  · obtain ⟨r, hr, rfl⟩ := loadChunk_code_ok.mp hs
    refine ⟨fun l r' hl => ?_, fun frame' body' hm => ?_, fun c hm size l hl => ?_⟩
    · rw [Std.TreeMap.getElem?_insert] at hl
      split at hl
      · rename_i he
        obtain rfl := Option.some.inj hl
        exact ⟨frame, body, by simp, Std.LawfulEqCmp.compare_eq_iff_eq.mp he, hr⟩
      · obtain ⟨f, b, hm, rest⟩ := h.origin l r' hl
        exact ⟨f, b, List.mem_append_left _ hm, rest⟩
    · rcases List.mem_append.mp hm with hm | hm
      · obtain ⟨r', hr'⟩ := h.routine frame' body' hm
        exact getElem?_insert_of_some hr'
      · obtain ⟨rfl, rfl⟩ : frame' = frame ∧ body' = body := by simpa using hm
        exact ⟨r, by simp⟩
    · rcases List.mem_append.mp hm with hm | hm
      · exact h.static c hm size l hl
      · obtain rfl := List.mem_singleton.mp hm
        cases hl
  · have hnot : ∀ frame body, .code frame body ∈ chunks ++ [c] → .code frame body ∈ chunks := by
      intro frame body hm
      rcases List.mem_append.mp hm with hm | hm
      · exact hm
      · rw [← List.mem_singleton.mp hm] at hl
        cases hl
    obtain ⟨hr, ht⟩ := loadChunk_static hl hs
    refine ⟨fun l r h' => ?_, fun frame body hm => ?_, fun c' hm size' l' hl' => ?_⟩
    · rw [hr] at h'
      obtain ⟨f, b, hm, rest⟩ := h.origin l r h'
      exact ⟨f, b, List.mem_append_left _ hm, rest⟩
    · rw [hr]
      exact h.routine frame body (hnot frame body hm)
    · rw [ht.labels]
      rcases List.mem_append.mp hm with hm | hm
      · obtain ⟨a, ha⟩ := h.static c' hm size' l' hl'
        exact getElem?_insert_of_some ha
      · obtain rfl := List.mem_singleton.mp hm
        obtain ⟨rfl, rfl⟩ := Prod.mk.inj (Option.some.inj (hl'.symm.trans hl))
        exact ⟨state.2.staticEnd, by simp⟩

end Loaded

lemma load_ok {code : Code.Program} {setup : Setup} {image : Image} {m : Machine} :
    load code setup = .ok (image, m) ↔
      ∃ memory, code.chunks.foldlM loadChunk (∅, Memory.new setup.memorySize) =
          .ok (image.routines, memory) ∧ image.entry = code.entry ∧
        m = ⟨memory, memory.size - wordSize, memory.size - wordSize, setup.generator,
          setup.console⟩ := by
  unfold load
  cases h : code.chunks.foldlM loadChunk (∅, Memory.new setup.memorySize) with
  | error e => simp [bind, Except.bind]
  | ok state =>
    obtain ⟨routines, memory⟩ := state
    obtain ⟨routines', entry⟩ := image
    simp only [bind, Except.bind, pure, Except.pure, Except.ok.injEq, Prod.mk.injEq, mk.injEq]
    constructor
    · rintro ⟨⟨rfl, rfl⟩, rfl⟩
      exact ⟨memory, ⟨rfl, rfl⟩, rfl, rfl⟩
    · rintro ⟨_, ⟨rfl, rfl⟩, rfl, rfl⟩
      exact ⟨⟨rfl, rfl⟩, rfl⟩

variable {code : Code.Program} {setup : Setup} {image : Image} {m : Machine}

lemma loaded_of_load (h : load code setup = .ok (image, m)) :
    Loaded code.chunks (image.routines, m.memory) := by
  obtain ⟨memory, hf, -, rfl⟩ := load_ok.mp h
  have := foldlM_ok (fun done state => Loaded done state)
    (fun done c state state' _ hl hs => hl.snoc hs) Loaded.nil hf
  rwa [List.nil_append] at this

lemma static_of_load (h : load code setup = .ok (image, m)) :
    m.memory.Static setup.memorySize := by
  obtain ⟨memory, hf, -, rfl⟩ := load_ok.mp h
  refine foldlM_ok (fun _ state => state.2.Static setup.memorySize)
    (fun done c state state' _ hs hstep => ?_) (d := []) (Memory.Static.new _) hf
  rcases Chunk.isLoadable_cases (isLoadable_of_loadChunk hstep) with ⟨frame, body, rfl⟩ | ⟨_, _, hc⟩
  · obtain ⟨r, -, rfl⟩ := loadChunk_code_ok.mp hstep
    exact hs
  · exact hs.takes (loadChunk_static hc hstep).2

lemma load_error (hc : ∀ c ∈ code.chunks, c.isLoadable = true) {e : Fault}
    (h : load code setup = .error e) : ∃ a, e = .addressOutOfBounds a := by
  unfold load at h
  cases hf : code.chunks.foldlM loadChunk (∅, Memory.new setup.memorySize) with
  | error e' =>
    rw [hf] at h
    obtain rfl := Except.error.inj h
    exact foldlM_error (P := fun e => ∃ a, e = .addressOutOfBounds a)
      (fun c hm state e he => loadChunk_error (hc c hm) he) hf
  | ok state =>
    rw [hf] at h
    cases h

end Image

namespace Source.Program.Compiles

open Lowering

variable {p : Program} {entry : String} {code : Code.Program} {layout : Layout} {st : State}

lemma loadable (h : p.Compiles entry code layout st) : ∀ c ∈ code.chunks, c.isLoadable = true := by
  intro c hc
  obtain ⟨⟨outer, item⟩, -, cs, he, hc⟩ := h.origin hc
  cases he with
  | code hf hr hs =>
    obtain rfl := List.mem_singleton.mp hc
    exact Stm.linear_flat _ _
  | global ha =>
    obtain rfl := List.mem_singleton.mp hc
    rfl
  | text =>
    obtain rfl := List.mem_singleton.mp hc
    rfl
  | stack ha => cases hc
  | param ha => cases hc
  | type => cases hc
  | expr h => cases hc

variable {setup : Setup} {image : Image} {m : Machine}

lemma entry_routine (h : p.Compiles entry code layout st)
    (hl : Image.load code setup = .ok (image, m)) :
    ∃ r, image.routines[image.entry]? = some r := by
  obtain ⟨_, -, he, -⟩ := Image.load_ok.mp hl
  obtain ⟨d, frame, -, hf, hentry⟩ := h.entry
  obtain ⟨body, hm⟩ := h.code_of_frame hf
  rw [he, hentry]
  exact (Image.loaded_of_load hl).routine frame body hm

lemma routine_origin (h : p.Compiles entry code layout st)
    (hl : Image.load code setup = .ok (image, m)) {l : Label} {r : Routine}
    (hr : image.routines[l]? = some r) :
    ∃ outer n x ps t b fragment st₁ st₂,
      (⟨outer, .defn (.func n x ps t b)⟩ : Occurrence) ∈ p.occurrences ∧
      layout.frames[n.id]? = some r.frame ∧ r.frame.label = l ∧
      (expr (p.scope layout) r.frame.level b).run st₁ = .ok (fragment, st₂) ∧
      .code r.frame (.seq r.code.toList) ∈ code.chunks ∧
      r.code.toList = ((returning fragment.toExp).flat st₂.nextTemp).code ∧
      r.targets = Routine.targetsOf r.code.toList := by
  obtain ⟨frame, body, hm, hlabel, hb⟩ := (Image.loaded_of_load hl).origin l r hr
  obtain ⟨outer, n, x, ps, t, b, fragment, st₁, st₂, ho, hf, hrun, -, rfl⟩ := h.code_origin hm
  obtain rfl := Except.ok.inj ((Routine.ofBody_flat frame _ st₂.nextTemp).symm.trans hb)
  exact ⟨outer, n, x, ps, t, b, fragment, st₁, st₂, ho, hf, hlabel, hrun, hm, rfl, rfl⟩

end Source.Program.Compiles

end BlockLang
