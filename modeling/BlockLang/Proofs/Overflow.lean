import BlockLang.Proofs.InternalFaults
import BlockLang.Proofs.StaticLinks
import BlockLang.Proofs.ThreadRuns

/-! A call for whose frame there is no room. The frame pointer is saved before room is looked for, so
what happens depends on where it is saved. -/

namespace BlockLang

open Source Code Lowering

/-- A thread that is about to save its frame pointer for a call of a function of the program. -/
structure Thread.AtCall (image : Image) (t : Thread) (oldFp : Int) (r : Routine) (args : List Exp) :
    Prop where
  save : t.current.routine.code[t.current.pc]? = some (saveFp oldFp)
  call : ∃ f, image.routines[f]? = some r ∧
    (t.current.routine.code[t.current.pc + 1]? = some (.exp (.call f args)) ∨
      ∃ d, t.current.routine.code[t.current.pc + 1]? = some (.move (.temp d) (.call f args)))

namespace Thread

variable {image : Image} {t : Thread} {oldFp : Int} {r : Routine} {args : List Exp} {m : Machine}

lemma AtCall.step (h : t.AtCall image oldFp r args) {ws : List Word}
    (hw : t.current.evalAll m args = .ok ws) :
    ∃ d, t.current.advance.step image m = .ok (.call r ws d t.current.advance.advance) m := by
  obtain ⟨f, hr, hc⟩ := h.call
  have hcall : ∀ d, t.current.advance.call image f args d m =
      .ok (.call r ws d t.current.advance.advance) m := by
    intro d
    unfold Activation.call
    refine Exec.bind_ok.mpr ⟨ws, m, Machine.read_ok ((Activation.evalAll_advance args).trans hw), ?_⟩
    rw [hr]
    rfl
  rcases hc with hc | ⟨d, hc⟩
  · refine ⟨.discard, ?_⟩
    rw [Activation.step_exp_call hc]
    exact hcall .discard
  · refine ⟨.temp d, ?_⟩
    rw [Activation.step_move_call hc]
    exact Exec.bind_ok.mpr ⟨.temp d, m, rfl, hcall (.temp d)⟩

variable (hold : 8 ≤ oldFp) (hlow : -wordBound ≤ m.sp - oldFp) (hhigh : m.sp - oldFp < wordBound)
variable (hsize : m.sp ≤ m.memory.size)

include hlow hhigh in
lemma AtCall.runFor_of_neg (h : t.AtCall image oldFp r args) (hneg : m.sp - oldFp < 0) (fuel : Nat) :
    t.runFor image (fuel + 1) m = (.fault (.addressOutOfBounds (m.sp - oldFp)), m) := by
  have hsave : t.current.step image m = _ := Activation.step_saveFp h.save hlow hhigh
  have hout : ¬m.memory.holds (m.sp - oldFp) 8 = true := by
    rw [Memory.holds_iff]
    omega
  rw [if_neg hout] at hsave
  exact runFor_of_error (Exec.bind_error.mpr (.inl hsave)) fuel

include hold hlow hhigh hsize in
lemma AtCall.advance_save (h : t.AtCall image oldFp r args) (hpos : 0 ≤ m.sp - oldFp) :
    m.memory.holds (m.sp - oldFp) 8 = true ∧
      t.advance image m = .ok (.running { t with current := t.current.advance }) (m.saved oldFp) := by
  have hsave : t.current.step image m = _ := Activation.step_saveFp h.save hlow hhigh
  have hin : m.memory.holds (m.sp - oldFp) 8 = true := by
    rw [Memory.holds_iff]
    constructor
    · exact hpos
    · push_cast
      omega
  rw [if_pos hin] at hsave
  exact ⟨hin, Exec.bind_ok.mpr ⟨_, _, hsave, rfl⟩⟩

include hold hlow hhigh hsize in
lemma AtCall.runFor_overflows (h : t.AtCall image oldFp r args) (hpos : 0 ≤ m.sp - oldFp)
    (hroom : m.sp - r.frame.size < m.memory.staticEnd) {ws : List Word}
    (hw : t.current.evalAll (m.saved oldFp) args = .ok ws)
    (hargs : m.sp + 8 * ws.length ≤ m.memory.size) (fuel : Nat) :
    t.runFor image (fuel + 2) m = (.fault .stackOverflow, (m.saved oldFp).entered r ws) := by
  obtain ⟨hin, hfirst⟩ := h.advance_save hold hlow hhigh hsize hpos
  obtain ⟨d, hcall⟩ := h.step hw
  have henter : r.enter ws d (m.saved oldFp) = _ := Routine.enter_eq
    (by rw [Machine.sp_saved]; omega) (by rw [Machine.sp_saved, Machine.size_saved]; exact hargs)
  have hover : (m.saved oldFp).sp - r.frame.size < (m.saved oldFp).memory.staticEnd := by
    rw [Machine.sp_saved, Machine.staticEnd_saved]
    exact hroom
  rw [if_pos hover] at henter
  rw [runFor_of_running hfirst]
  exact runFor_of_error
    (Exec.bind_error.mpr (.inr ⟨_, _, hcall, Exec.bind_error.mpr (.inl henter)⟩)) fuel

end Thread

lemma Machine.entered_saved {oldFp : Int} {r : Routine} {ws : List Word} {m : Machine} (hold : 8 ≤ oldFp)
    (hpos : 0 ≤ m.sp - oldFp) (hin : m.memory.holds (m.sp - oldFp) 8 = true) :
    (m.memory.staticEnd ≤ m.sp - oldFp → ∀ i : Nat, (i : Int) < m.memory.staticEnd →
      ((m.saved oldFp).entered r ws).memory.bytes[i]? = m.memory.bytes[i]?) ∧
    (m.sp - oldFp < m.memory.staticEnd →
      ((m.saved oldFp).entered r ws).memory.load (m.sp - oldFp) = .ok (.ofInt m.fp)) := by
  simp only [entered, saved]
  refine ⟨fun hs i hi => ?_, fun hs => ?_⟩
  · rw [Memory.getElem?_write _ (by omega) _ (by omega),
      Memory.getElem?_write _ hpos _ (by omega)]
  · rw [Memory.load_writeAll_of_clear (by omega) (by omega)]
    exact Memory.load_write hin

/-- When a frame does not fit, saving the frame pointer outside of memory is the fault. Otherwise the
stack overflows: above the static area nothing static has changed, and inside of it the frame pointer
has been stored there. -/
theorem call_without_room {image : Image} {t : Thread} {oldFp : Int} {r : Routine} {args : List Exp}
    {m : Machine} (h : t.AtCall image oldFp r args) (hold : 8 ≤ oldFp)
    (hlow : -wordBound ≤ m.sp - oldFp) (hhigh : m.sp - oldFp < wordBound)
    (hsize : m.sp ≤ m.memory.size) (hroom : m.sp - r.frame.size < m.memory.staticEnd)
    (fuel : Nat) :
    (m.sp - oldFp < 0 →
      t.runFor image (fuel + 2) m = (.fault (.addressOutOfBounds (m.sp - oldFp)), m)) ∧
    (0 ≤ m.sp - oldFp → ∀ ws, t.current.evalAll (m.saved oldFp) args = .ok ws →
      m.sp + 8 * ws.length ≤ m.memory.size →
      ∃ m', t.runFor image (fuel + 2) m = (.fault .stackOverflow, m') ∧
        (m.memory.staticEnd ≤ m.sp - oldFp → ∀ i : Nat, (i : Int) < m.memory.staticEnd →
          m'.memory.bytes[i]? = m.memory.bytes[i]?) ∧
        (m.sp - oldFp < m.memory.staticEnd →
          m'.memory.load (m.sp - oldFp) = .ok (.ofInt m.fp))) := by
  refine ⟨fun hneg => h.runFor_of_neg hlow hhigh hneg (fuel + 1), fun hpos ws hw hargs => ?_⟩
  obtain ⟨hin, -⟩ := h.advance_save hold hlow hhigh hsize hpos
  exact ⟨_, h.runFor_overflows hold hlow hhigh hsize hpos hroom hw hargs fuel,
    Machine.entered_saved hold hpos hin⟩

def endless : Routine :=
  ⟨{ label := .named "f", level := 1, outgoing := 8 },
    #[saveFp 8, .exp (.call (.named "f") [.const 0])], ∅⟩

theorem call_without_room_endless :
    ∃ m', Thread.runFor ⟨(∅ : Std.TreeMap Label Routine).insert (.named "f") endless, .named "f"⟩ 2
        { current := { routine := endless, destination := .discard } }
        ⟨Memory.new 64, 32, 16, .ofSeed 0, none⟩ = (.fault .stackOverflow, m') ∧
      ∀ i : Nat, (i : Int) < 8 → m'.memory.bytes[i]? = (Memory.new 64).bytes[i]? := by
  have h : Thread.AtCall ⟨(∅ : Std.TreeMap Label Routine).insert (.named "f") endless, .named "f"⟩
      { current := { routine := endless, destination := .discard } } 8 endless [.const 0] :=
    ⟨rfl, .named "f", by simp, .inl rfl⟩
  obtain ⟨m', hr, hs, -⟩ := (call_without_room (m := ⟨Memory.new 64, 32, 16, .ofSeed 0, none⟩) h
    (by decide) (by decide) (by decide) (by decide) (by decide) 0).2 (by decide) [0] rfl (by decide)
  exact ⟨m', hr, hs (by decide)⟩

/-! Calls in the states that compiled programs reach. -/

lemma Routine.Flows.ready_at {B : Bindings} {r : Routine} {ps : List (Set Temp × Stm)}
    (h : r.Flows B ps) {i : Nat} {s : Stm} (hs : r.code[i]? = some s) :
    ∃ K, ps[i]? = some (K, s) ∧ s.Ready B K := by
  rw [h.getElem?] at hs
  obtain ⟨⟨K, s'⟩, hp, rfl⟩ := Option.map_eq_some_iff.mp hs
  obtain ⟨Z, hfollows⟩ := h.follows
  exact ⟨K, hp, (hfollows.at hp).1⟩

lemma Activation.Holds.evalAll_temps {K : Set Temp} {a : Activation} (h : a.Holds K) (m : Machine)
    {ts : List Temp} (ht : ∀ t ∈ ts, t ∈ K) : ∃ ws, a.evalAll m (ts.map .temp) = .ok ws := by
  induction ts with
  | nil => exact ⟨[], rfl⟩
  | cons t ts ih =>
    obtain ⟨w, hw⟩ := h t (ht t (List.mem_cons_self ..))
    obtain ⟨ws, hws⟩ := ih fun t' ht' => ht t' (List.mem_cons_of_mem _ ht')
    exact ⟨w :: ws, Sim.evalAll_cons_ok_iff.mpr ⟨w, ws, rfl, Activation.eval_of_temp hw, hws⟩⟩

namespace Thread.Follows

variable {At : Frame → List NodeId → Prop} {top : Int} {t : Thread} {m : Machine} {image : Image}
variable {B : Bindings} {path outer : List NodeId} {n : Int} {l : Label} {args : List Exp} {g : Frame}

lemma exists_evalAll (h : t.Follows At top m) (hi : image.Lexical At) (htop : top + 8 < wordBound)
    (hready : t.current.Ready B) (hat : At t.current.routine.frame path)
    (hsite : CallSite At path t.current.routine.frame n l args g outer) {u : Temp}
    (hs : t.current.routine.code[t.current.pc]? = some (.move (.temp u) (.call l args))) :
    ∃ ws, t.current.evalAll m args = .ok ws := by
  obtain ⟨hrun, -⟩ := Array.getElem?_eq_some_iff.mp hs
  obtain ⟨ps, hflows, hholds⟩ := hready
  obtain ⟨K, hp, -, hargs⟩ := hflows.ready_at hs
  obtain ⟨ts, rfl⟩ := hsite.link
  have htemps : ∀ t ∈ ts, t ∈ K := fun t ht =>
    hargs (.temp t) (List.mem_cons_of_mem _ (List.mem_map_of_mem ht))
  obtain ⟨ws, hws⟩ := (hholds K _ hp).evalAll_temps m htemps
  obtain ⟨w, hw⟩ : ∃ w, t.current.eval m (if outer = [] then .const 0
      else .staticLink (path.length - outer.length)) = .ok w := by
    by_cases ho : outer = []
    · exact ⟨0, by rw [if_pos ho]; rfl⟩
    · obtain ⟨gs, -, heval⟩ := h.eval_staticLink hi htop hrun hat _ hsite.visible ho rfl
      exact ⟨_, by rw [if_neg ho]; exact heval⟩
  exact ⟨w :: ws, Sim.evalAll_cons_ok_iff.mpr ⟨w, ws, rfl, hw, hws⟩⟩

lemma atCall (h : t.Follows At top m) (hi : image.Lexical At) (hp : image.Provides B)
    (hready : t.current.Ready B)
    (hs : t.current.routine.code[t.current.pc]? = some (saveFp n)) :
    ∃ path r args outer u, At t.current.routine.frame path ∧
      CallSite At path t.current.routine.frame r.frame.oldFp r.frame.label args r.frame outer ∧
      t.current.routine.code[t.current.pc + 1]? =
        some (.move (.temp u) (.call r.frame.label args)) ∧
      t.AtCall image r.frame.oldFp r args := by
  obtain ⟨path, hshape⟩ := h.shaped_current
  have hplace := hshape.place hs
  generalize hsave : saveFp n = s at hplace
  cases hplace with
  | plain hplain => exact (not_plain_saveFp (hsave ▸ hplain)).elim
  | call => cases hsave
  | last => cases hsave
  | @save n' l args g outer u hsite hnext =>
    obtain ⟨j, hg⟩ := hsite.callee
    obtain ⟨ps, hflows, -⟩ := hready
    obtain ⟨K, -, hfunction, -⟩ := hflows.ready_at hnext
    rw [hsave, hsite.oldFp] at hs
    have hlabel := hsite.label
    rcases hp.function l hfunction with ⟨r, hr⟩ | ⟨i, hintrinsic⟩
    · obtain ⟨hl, path', hshape'⟩ := hi.routine l r hr
      obtain ⟨rfl, -⟩ := hi.label _ _ _ _ hshape'.frame hg (hl.trans hlabel)
      rw [hsite.oldFp, hlabel] at hsite
      rw [hlabel] at hnext hr
      exact ⟨path, r, args, outer, u, hshape.frame, hsite, hnext, hs, _, hr, .inr ⟨u, hnext⟩⟩
    · have he := Intrinsic.eq_label_of_ofLabel? hintrinsic
      exact (hi.intrinsic g _ hg i (hlabel.symm.trans he)).elim

lemma sp_bounds (h : t.Follows At top m) : 0 ≤ m.sp ∧ m.sp ≤ top := by
  rw [h.sp]
  exact ⟨h.nonneg, h.stacked.sp_le_top top⟩

lemma arguments_fit (h : t.Follows At top m) (hi : image.Lexical At)
    (hsite : CallSite At path t.current.routine.frame n l args g outer) :
    m.sp + 8 * args.length ≤ top + 8 := by
  obtain ⟨j, hg⟩ := hsite.callee
  have hstacked : Frame.Stacked (g :: frames t.activations) :=
    .cons (hi.sized g _ hg) (hsite.params ▸ hsite.room) h.stacked
  rw [h.sp, ← hsite.params]
  exact hstacked.params_le_top top

end Thread.Follows

/-- In every state that a compiled program without arrays reaches, right before the frame pointer is
saved a function of the program is about to be called, and if its frame does not fit, then the run ends
with one of the two faults. -/
theorem reached_call_without_room {p : Source.Program} {entry : String} {code : Code.Program}
    {setup : Setup} {image : Image} {m₀ m : Machine} {fuel : Nat} {t : Thread} (hr : p.Regular)
    (hp : Def.havePlainCounters p.defs.definitions = true) (hc : p.compile entry = .ok code)
    (hs : code.statements.length ≤ UInt32.size) (hn : setup.memorySize < wordBound)
    (hl : Image.load code setup = .ok (image, m₀)) (hrun : image.run fuel m₀ = (.unfinished t, m))
    {n : Int} (hsave : t.current.routine.code[t.current.pc]? = some (saveFp n)) :
    ∃ r args, t.AtCall image r.frame.oldFp r args ∧
      (m.sp - r.frame.size < m.memory.staticEnd →
        (m.sp - r.frame.oldFp < 0 →
          image.run (fuel + 2) m₀ = (.fault (.addressOutOfBounds (m.sp - r.frame.oldFp)), m)) ∧
        (0 ≤ m.sp - r.frame.oldFp →
          ∃ m', image.run (fuel + 2) m₀ = (.fault .stackOverflow, m') ∧
            (m.memory.staticEnd ≤ m.sp - r.frame.oldFp → ∀ i : Nat, (i : Int) < m.memory.staticEnd →
              m'.memory.bytes[i]? = m.memory.bytes[i]?) ∧
            (m.sp - r.frame.oldFp < m.memory.staticEnd →
              m'.memory.load (m.sp - r.frame.oldFp) = .ok (.ofInt m.fp)))) := by
  obtain ⟨layout, st, h⟩ := Source.Program.compile_ok.mp hc
  have hi := h.lexical hr hs hl
  have hprovides := h.provides hp hl
  have hfollows := h.follows hr hs hn hl hrun
  obtain ⟨hbinds, -, hready⟩ := Image.run_meets hprovides (h.entry_routine hl) fuel
    (Image.binds_of_load hl)
  rw [hrun] at hbinds hready
  have hready := hready t rfl
  have htop : (setup.memorySize : Int) - 8 + 8 < wordBound := by omega
  obtain ⟨path, r, args, outer, u, hat, hsite, hnext, hcall⟩ :=
    hfollows.atCall hi hprovides hready.1 hsave
  have hresume (k : Nat) : image.run (fuel + k) m₀ = t.runFor image k m := by
    rw [Image.run_add, hrun]
    rfl
  -- the bounds that a call needs
  obtain ⟨j, hg⟩ := hsite.callee
  obtain ⟨hold, hsmall⟩ := (hi.sized _ _ hg).oldFp_bounds
  have hbound := wordBound_eq
  obtain ⟨hnonneg, hle⟩ := hfollows.sp_bounds
  have hsize := hfollows.static.size_eq
  refine ⟨r, args, hcall, fun hroom => ⟨fun hneg => ?_, fun hpos => ?_⟩⟩
  · rw [hresume]
    exact hcall.runFor_of_neg (by omega) (by omega) hneg 1
  · obtain ⟨hin, hadvance⟩ := hcall.advance_save hold (by omega) (by omega) (by omega) hpos
    -- the arguments are evaluated in the state after the frame pointer has been saved
    have hready' := Thread.advance_meets hprovides hready m hbinds
    rw [hadvance] at hready'
    obtain ⟨ws, hws⟩ := (hfollows.advance hi htop hadvance).exists_evalAll hi htop hready'.2.1 hat
      hsite hnext
    have hlength := length_of_evalAll hws
    rw [Activation.evalAll_advance] at hws
    have hfit := hfollows.arguments_fit hi hsite
    rw [hresume]
    exact ⟨_, hcall.runFor_overflows hold (by omega) (by omega) (by omega) hpos hroom hws
      (by omega) 0, Machine.entered_saved hold hpos hin⟩

/-! A frame so large that the frame pointer is saved below the start of memory.
```text
fun f(): integer = f() where var a: arr[100] integer
fun main(): integer = f()
```
-/

def largeFrames : Build Source.Program := do
  let f ← Builder.signature "f" [] .int
  let main ← Builder.signature "main" [] .int
  let mainBody ← Builder.call f []
  let a ← Builder.var "a" (.array 100 .int)
  let body ← Builder.whereDefs (← Builder.call f []) [a]
  Builder.finish [Builder.func f body, Builder.func main mainBody]

theorem no_stack_overflow_of_large_frames :
    ∃ p code image m, Builder.run largeFrames = .ok p ∧ p.compile "main" = .ok code ∧
      Image.load code ⟨1024, .ofSeed 0, none⟩ = .ok (image, m) ∧
      (image.run 4 m).1 = .fault (.addressOutOfBounds (-624)) := by
  obtain ⟨p, code, image, m, hb, -, hc, hl, h⟩ := exists_loaded_of_any largeFrames
    ⟨1024, .ofSeed 0, none⟩ (fun _ => true)
    (fun image m => (image.run 4 m).1.isFault (.addressOutOfBounds (-624))) (by decide +kernel)
  exact ⟨p, code, image, m, hb, hc, hl, Outcome.eq_fault_of_isFault h⟩

/-! A stack that grows down to the static area, where it overwrites a variable.
```text
var x: integer
fun f(): integer = f() where var a: integer
fun main(): integer = { x = 7; f() }
```
-/

def smallFrames : Build Source.Program := do
  let x ← Builder.var "x" .int
  let f ← Builder.signature "f" [] .int
  let main ← Builder.signature "main" [] .int
  let mainBody ← Builder.block [
    ← Builder.assign (← Builder.name x.ref) (← Builder.int 7), ← Builder.call f []]
  let a ← Builder.var "a" .int
  let body ← Builder.whereDefs (← Builder.call f []) [a]
  Builder.finish [x, Builder.func f body, Builder.func main mainBody]

theorem stack_overflow_overwrites_variable :
    ∃ p code image m, Builder.run smallFrames = .ok p ∧ p.Regular ∧ p.compile "main" = .ok code ∧
      Image.load code ⟨120, .ofSeed 0, none⟩ = .ok (image, m) ∧
      (image.run 2 m).2.memory.load 8 = .ok 7 ∧ (image.run 20 m).1 = .fault .stackOverflow ∧
      (image.run 20 m).2.memory.staticEnd = 16 ∧ (image.run 20 m).2.memory.load 8 = .ok 48 := by
  obtain ⟨p, code, image, m, hb, hr, hc, hl, h⟩ := exists_loaded_of_any smallFrames
    ⟨120, .ofSeed 0, none⟩ (fun p => decide p.Regular)
    (fun image m => (image.run 20 m).1.isFault .stackOverflow &&
      decide ((image.run 2 m).2.memory.load 8 = .ok 7 ∧
        (image.run 20 m).2.memory.staticEnd = 16 ∧ (image.run 20 m).2.memory.load 8 = .ok 48))
    (by decide +kernel)
  obtain ⟨ho, h⟩ := Bool.and_eq_true_iff.mp h
  obtain ⟨hbefore, hend, hafter⟩ := of_decide_eq_true h
  exact ⟨p, code, image, m, hb, of_decide_eq_true hr, hc, hl, hbefore,
    Outcome.eq_fault_of_isFault ho, hend, hafter⟩

end BlockLang
