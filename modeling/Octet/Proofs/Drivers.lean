import Octet.Proofs.Journeys
import Octet.Proofs.Loading
import Octet.Session

/-!
# Stepping through a program and running it

A session can run a program under a bound on the steps, or step through it with a line of input for each
instruction. Either way the machine goes on the same journey. The two sessions differ in what they print on the
way, in the bound that their settings have, and in their logs.

* `Session.AsksFor`: input that asks for so many steps.
* `Session.load_cases`: **two sessions with the same files fail to load alike, or load the same state.**
* `Session.run_interact_journey`: **stepping through a program shows a journey.**
* `Session.step_run_agree`: **the two sessions fail alike, or show the same last state and end alike.**
-/

namespace Octet

/-- The state as text. -/
def State.dump (s : State) : String :=
  s.machine.dump s.store

theorem State.dump_of_agrees {s t : State} {bound : Option UInt64} (hst : t.Agrees (s.withBound bound)) :
    t.dump = s.dump := by
  unfold dump
  rw [hst.1, hst.2]
  rfl

namespace Session

/-- The question about the next instruction, or what is said if there is none. -/
def question (m : Machine) : String :=
  match m.current? with
  | none => "[*] Halted\n"
  | some i => padLeft m.ip ++ ": " ++ i.text ++ "  [Enter=step, q=quit] "

/-- A state as it is shown between two lines of input. -/
def screen (s : State) : String :=
  s.dump ++ question s.machine

/-- The line that announces a run. -/
def headline (file : String) (m : Machine) : String :=
  "[*] Running " ++ file ++ " (" ++ Numeral.decimal m.program.length ++ " instruction(s), " ++
    Numeral.decimal m.program.declarations.length ++ " variable(s))\n"

/-- A line of text that asks to quit, or one that does not. -/
def Reads (line : List UInt8) (quits : Bool) : Prop :=
  ∃ answer, String.fromUTF8? ⟨line.toArray⟩ = some answer ∧ isQuit answer = quits

/-- Lines after which nothing is asked for: there are none, or the first one asks to quit. -/
def Ends (lines : List (List UInt8)) : Prop :=
  lines = [] ∨ ∃ line more, lines = line :: more ∧ Reads line true

/-- Input of so many lines of text that do not ask to quit, which then ends or asks to quit. -/
def AsksFor (steps : Nat) (input : List UInt8) : Prop :=
  ∃ lines rest, Text.byteLines input = lines ++ rest ∧ lines.length = steps ∧
    (∀ line ∈ lines, Reads line false) ∧ Ends rest

/-- A session that ends with an error, or without one. -/
def closed (error : Option Error) (c : Console) : EStateM.Result Error Console Unit :=
  match error with
  | none => .ok () c
  | some e => .error e c

/-- What stepping through a program shows of a journey: every state with the question about it. -/
def shown (j : Journey) : String :=
  String.join (j.earlier.map screen) ++ screen j.last

open Shell

variable {line : List UInt8} {rest : List (List UInt8)}

theorem shown_stop (s : State) (error : Option Error) :
    shown ⟨[], s, error⟩ = s.dump ++ question s.machine := by
  unfold shown
  rw [List.map_nil, String.join_nil, String.empty_append]
  rfl

theorem shown_cons (s : State) (j : Journey) :
    shown ⟨s :: j.earlier, j.last, j.error⟩ = s.dump ++ question s.machine ++ shown j := by
  unfold shown
  rw [List.map_cons, String.join_cons, String.append_assoc]
  rfl

theorem run_onMachine {α : Type} (action : Exec α) (s : State) (out err : String) :
    (onMachine s.machine action).run ⟨s.toWorld, out, err⟩ =
      match action.run s with
      | .ok a t => .ok (.ok a, t.machine) ⟨t.toWorld, out, err⟩
      | .error e t => .ok (.error e, t.machine) ⟨t.toWorld, out, err⟩ := rfl

theorem run_ask (m : Machine) (c : Console) :
    (ask m).run c = .ok m.current?.isSome { c with out := c.out ++ question m } := by
  unfold ask question
  cases m.current? <;> rfl

theorem run_respond_quit (hline : Reads line true) (m : Machine) (c : Console) :
    (respond m line).run c = .ok none c := by
  obtain ⟨answer, htext, hquit⟩ := hline
  unfold respond
  simp only [htext, hquit]
  rfl

theorem run_respond_step (hline : Reads line false) (s : State) (out err : String) :
    (respond s.machine line).run ⟨s.toWorld, out, err⟩ =
      match Machine.step.run s with
      | .ok () t => .ok (some t.machine) ⟨t.toWorld, out ++ t.dump, err⟩
      | .error e t => .error e ⟨t.toWorld, out, err⟩ := by
  obtain ⟨answer, htext, hquit⟩ := hline
  unfold respond
  simp only [htext, hquit, Bool.false_eq_true, if_false, EStateM.run_bind, run_onMachine]
  cases Machine.step.run s <;> rfl

/-- Where nothing more is asked for, the last question is the end. -/
theorem run_interact_of_ends (hrest : Ends rest) (m : Machine) (c : Console) :
    (interact m rest).run c = .ok () { c with out := c.out ++ question m } := by
  obtain rfl | ⟨line, more, rfl, hline⟩ := hrest
  · unfold interact
    rw [EStateM.run_bind, run_ask]
    rfl
  · unfold interact
    rw [EStateM.run_bind, run_ask]
    cases m.current? with
    | none => rfl
    | some i =>
      simp only [Option.isSome_some, if_true, EStateM.run_bind, run_respond_quit hline]
      rfl

/-- One round of a session: a question, a line of input, a step. -/
theorem run_interact_cons (hline : Reads line false) (s : State) (lines : List (List UInt8)) (out err : String) :
    (interact s.machine (line :: lines)).run ⟨s.toWorld, out, err⟩ =
      match s.machine.current? with
      | none => .ok () ⟨s.toWorld, out ++ question s.machine, err⟩
      | some _ =>
        match Machine.step.run s with
        | .ok () t => (interact t.machine lines).run ⟨t.toWorld, out ++ question s.machine ++ t.dump, err⟩
        | .error e t => .error e ⟨t.toWorld, out ++ question s.machine, err⟩ := by
  conv => lhs; unfold interact
  rw [EStateM.run_bind, run_ask]
  cases s.machine.current? with
  | none => rfl
  | some i =>
    simp only [Option.isSome_some, if_true, EStateM.run_bind, run_respond_step hline]
    cases Machine.step.run s <;> rfl

/-- **Stepping through a program shows a journey.** -/
theorem run_interact_journey (hrest : Ends rest) (lines : List (List UInt8)) :
    (∀ line ∈ lines, Reads line false) → ∀ (s : State) (out err : String), ∃ w,
    (interact s.machine (lines ++ rest)).run ⟨s.toWorld, out ++ s.dump, err⟩ =
      closed (s.journey lines.length).error ⟨w, out ++ shown (s.journey lines.length), err⟩ := by
  induction lines with
  | nil =>
    intro _ s out err
    refine ⟨s.toWorld, ?_⟩
    rw [List.nil_append, run_interact_of_ends hrest, List.length_nil, State.journey, shown_stop,
      ← String.append_assoc]
    rfl
  | cons line lines ih =>
    -- a round ends the session, at the end of the program or with an error, or it makes one step
    intro hlines s out err
    rw [List.cons_append, run_interact_cons (hlines line List.mem_cons_self), List.length_cons]
    cases hi : s.machine.current? with
    | none =>
      refine ⟨s.toWorld, ?_⟩
      rw [State.journey_of_halted hi, shown_stop, ← String.append_assoc]
      rfl
    | some i =>
      cases hst : Machine.step.run s with
      | error e t =>
        refine ⟨t.toWorld, ?_⟩
        rw [State.journey_of_error hi hst, shown_stop, ← String.append_assoc]
        rfl
      | ok u t =>
        have hlater : ∀ l ∈ lines, Reads l false := fun l hl => hlines l (List.mem_cons_of_mem _ hl)
        obtain ⟨w, hrun⟩ := ih hlater t (out ++ s.dump ++ question s.machine) err
        refine ⟨w, hrun.trans ?_⟩
        rw [State.journey_of_ok hst, shown_cons]
        simp only [String.append_assoc]

/-- The document of a session decides which settings it has, apart from the bound on the steps. -/
theorem settings_cases (disk : Disk) (config : Option String) (trace : Bool) :
    (∃ e, ∀ maxSteps c, (settings disk config trace maxSteps).run c = .error e c) ∨
      ∃ chosen : Settings, ∀ maxSteps c, ∃ log, (settings disk config trace maxSteps).run c =
        .ok { chosen with maxSteps := maxSteps.or chosen.maxSteps } { c with world.log := log } := by
  cases config with
  | none => exact Or.inr ⟨{ Settings.standard with trace := false || trace }, fun _ _ => ⟨_, rfl⟩⟩
  | some path =>
    cases hd : Loader.settings disk path with
    | error e =>
      refine Or.inl ⟨e, fun maxSteps c => ?_⟩
      unfold settings
      simp only [hd]
      rfl
    | ok chosen =>
      refine Or.inr ⟨{ chosen with trace := chosen.trace || trace }, fun maxSteps c => ?_⟩
      unfold settings
      simp only [hd]
      exact ⟨_, rfl⟩

end Session

theorem Loader.run_machine (disk : Disk) (path : String) (settings : Settings) (w : World) :
    (machine disk path settings).run w =
      match disk.text path with
      | .error e => .error e w
      | .ok text => (Machine.ofSource text settings).run
          { w with log := w.log.push (.sourceRead path text.utf8ByteSize) } := by
  unfold machine program source
  cases disk.text path <;> rfl

/-- The source file decides whether there is a machine, and its program. -/
theorem Loader.machine_cases (disk : Disk) (path : String) :
    (∃ e, ∀ settings w, ∃ w', (machine disk path settings).run w = .error e w') ∨
      ∃ p : Program, ∀ settings w, ∃ scope w',
        (machine disk path settings).run w = .ok ⟨p, settings, scope, 0, .zero⟩ w' ∧
          Scope.Loaded p.declarations w.store scope w'.store := by
  simp only [run_machine]
  cases disk.text path with
  | error e => exact Or.inl ⟨e, fun _ w => ⟨w, rfl⟩⟩
  | ok text =>
    simp only [Machine.run_ofSource]
    cases hparse : Program.parse text with
    | error e => exact Or.inl ⟨e, fun _ w => ⟨_, rfl⟩⟩
    | ok p =>
      refine Or.inr ⟨p, fun settings w => ?_⟩
      obtain ⟨m, w', hload⟩ := Machine.load_of_loadable (Program.loadable_of_parse hparse) settings
        { w with log := w.log.push (.sourceRead path text.utf8ByteSize) }
      obtain ⟨scope, rfl, hloaded⟩ := Machine.load_ok hload
      exact ⟨scope, w', hload, hloaded⟩

/-- Declarations and a store decide the scope and the store that loading leads to. -/
theorem Scope.Loaded.unique {ds : List Declaration} {before after after' : Store} {scope scope' : Scope}
    (h : Loaded ds before scope after) (h' : Loaded ds before scope' after') :
    scope' = scope ∧ after' = after := by
  have hdata : scope'.data = scope.data := by rw [h.data, h'.data]
  have hregisters : scope'.registers = scope.registers := by rw [h.registers, h'.registers]
  have hentries : scope'.entries = scope.entries := by rw [h.entries, h'.entries, hdata, hregisters]
  have hdeclared : scope'.declared = scope.declared := by rw [h.declared, h'.declared]
  have hblocks : after'.blocks = after.blocks := by rw [h.store, h'.store]
  constructor
  · cases scope
    cases scope'
    simp_all
  · cases after
    cases after'
    simp_all

namespace Session

open Shell

variable {disk : Disk} {trace : Bool} {file : String} {config : Option String}

/-- Loads a program with the settings of a session. -/
def load (disk : Disk) (trace : Bool) (file : String) (config : Option String) (maxSteps : Option UInt64) :
    Shell Machine := do
  let settings ← settings disk config trace maxSteps
  Loader.machine disk file settings

theorem run_load {maxSteps : Option UInt64} {effective : Settings} {log : Array Event}
    (hsettings : (settings disk config trace maxSteps).run start = .ok effective { start with world.log := log }) :
    (load disk trace file config maxSteps).run start =
      match (Loader.machine disk file effective).run ⟨.empty, log⟩ with
      | .ok m w => .ok m ⟨w, "", ""⟩
      | .error e w => .error e ⟨w, "", ""⟩ := by
  unfold load
  rw [EStateM.run_bind, hsettings]
  show ofAction (Loader.machine disk file effective) ⟨⟨.empty, log⟩, "", ""⟩ = _
  unfold ofAction
  cases (Loader.machine disk file effective).run ⟨.empty, log⟩ <;> rfl

/-- **Two sessions with the same files fail to load with one error, or load states that differ in the bound
and the log alone.** Neither prints anything. -/
theorem load_cases (disk : Disk) (trace : Bool) (file : String) (config : Option String) :
    (∃ e, ∀ maxSteps, ∃ w, (load disk trace file config maxSteps).run start = .error e ⟨w, "", ""⟩) ∨
      ∃ s : State, (load disk trace file config none).run start = .ok s.machine ⟨s.toWorld, "", ""⟩ ∧
        ∀ bound, ∃ t : State,
          (load disk trace file config (some bound)).run start = .ok t.machine ⟨t.toWorld, "", ""⟩ ∧
          t.machine.settings.maxSteps = some bound ∧ t.Agrees (s.withBound (some bound)) := by
  obtain ⟨e, he⟩ | ⟨chosen, hchosen⟩ := settings_cases disk config trace
  · refine Or.inl ⟨e, fun maxSteps => ⟨.empty, ?_⟩⟩
    unfold load
    rw [EStateM.run_bind, he]
    rfl
  · obtain ⟨e, he⟩ | ⟨p, hp⟩ := Loader.machine_cases disk file
    · refine Or.inl ⟨e, fun maxSteps => ?_⟩
      obtain ⟨log, hsettings⟩ := hchosen maxSteps start
      obtain ⟨w, hmachine⟩ := he { chosen with maxSteps := maxSteps.or chosen.maxSteps } ⟨.empty, log⟩
      exact ⟨w, by rw [run_load hsettings, hmachine]⟩
    · have hload : ∀ maxSteps : Option UInt64, ∃ scope w, (load disk trace file config maxSteps).run start =
          .ok ⟨p, { chosen with maxSteps := maxSteps.or chosen.maxSteps }, scope, 0, .zero⟩ ⟨w, "", ""⟩ ∧
            Scope.Loaded p.declarations .empty scope w.store := by
        intro maxSteps
        obtain ⟨log, hsettings⟩ := hchosen maxSteps start
        obtain ⟨scope, w, hmachine, hloaded⟩ :=
          hp { chosen with maxSteps := maxSteps.or chosen.maxSteps } ⟨.empty, log⟩
        exact ⟨scope, w, by rw [run_load hsettings, hmachine], hloaded⟩
      -- both states are loaded into the empty store, so they have the same scope and the same bytes
      obtain ⟨scope, w, hrun, hloaded⟩ := hload none
      refine Or.inr ⟨⟨w, _⟩, hrun, fun bound => ?_⟩
      obtain ⟨scope', w', hrun', hloaded'⟩ := hload (some bound)
      obtain ⟨rfl, hstore⟩ := hloaded.unique hloaded'
      exact ⟨⟨w', _⟩, hrun', rfl, hstore, rfl⟩

theorem run_begin (disk : Disk) (trace : Bool) (file : String) (config : Option String) (c : Console) :
    (begin disk trace file config).run c =
      match (load disk trace file config none).run c with
      | .ok m c => .ok m { c with out := c.out ++ m.dump c.world.store }
      | .error e c => .error e c := by
  unfold begin load
  simp only [EStateM.run_bind]
  cases (settings disk config trace none).run c with
  | error e c => rfl
  | ok settings c =>
    simp only
    cases (liftM (Loader.machine disk file settings) : Shell Machine).run c <;> rfl

/-- What a session prints at the end of a run. -/
def summary (s : State) (quiet : Bool) (seconds : String) : String :=
  "\n" ++ s.dump ++ if quiet then "" else s.machine.tally.report seconds

theorem run_conclude (result : Except Error Outcome) (s : State) (quiet : Bool) (seconds out err : String) :
    (conclude result s.machine quiet seconds).run ⟨s.toWorld, out, err⟩ =
      match result with
      | .ok _ => .ok () ⟨s.toWorld, out ++ summary s quiet seconds, err⟩
      | .error e => .error e ⟨s.toWorld, out ++ summary s quiet seconds, err⟩ := by
  have hsummarize : (summarize s.machine quiet seconds).run ⟨s.toWorld, out, err⟩ =
      .ok () ⟨s.toWorld, out ++ summary s quiet seconds, err⟩ := by
    cases quiet with
    | true => simp only [summary, if_true, String.append_empty, ← String.append_assoc]; rfl
    | false => simp only [summary, Bool.false_eq_true, if_false, ← String.append_assoc]; rfl
  unfold conclude
  rw [EStateM.run_bind, hsummarize]
  cases result <;> rfl

theorem run_execute (disk : Disk) (trace : Bool) (options : RunOptions) (c : Console) :
    (execute disk trace options).run c =
      match (load disk trace options.file options.config options.maxSteps).run c with
      | .error e c => .error e c
      | .ok m c =>
        match Machine.run.run ⟨c.world, m⟩ with
        | .ok outcome t => .ok (.ok outcome, t.machine)
            ⟨t.toWorld, c.out ++ headline options.file m ++ outcomeText outcome, c.err⟩
        | .error e t => .ok (.error e, t.machine)
            ⟨t.toWorld, c.out ++ headline options.file m, c.err ++ faultText t.machine⟩ := by
  unfold execute load
  simp only [EStateM.run_bind]
  cases (settings disk options.config trace options.maxSteps).run c with
  | error e c => rfl
  | ok settings c =>
    simp only
    cases (liftM (Loader.machine disk options.file settings) : Shell Machine).run c with
    | error e c => rfl
    | ok m c =>
      have hprint : ∀ text c', (print text).run c' = .ok () { c' with out := c'.out ++ text } := fun _ _ => rfl
      have hmachine := run_onMachine Machine.run ⟨c.world, m⟩ (c.out ++ headline options.file m) c.err
      unfold headline at hmachine ⊢
      simp only [hprint, hmachine]
      cases Machine.run.run ⟨c.world, m⟩ <;> rfl

theorem run_run (disk : Disk) (trace : Bool) (options : RunOptions) (seconds : String) (c : Console) :
    (run disk trace options seconds).run c =
      match (load disk trace options.file options.config options.maxSteps).run c with
      | .error e c => .error e c
      | .ok m c =>
        match Machine.run.run ⟨c.world, m⟩ with
        | .ok outcome t => .ok () ⟨t.toWorld,
            c.out ++ headline options.file m ++ outcomeText outcome ++ summary t options.quiet seconds, c.err⟩
        | .error e t => .error e ⟨t.toWorld,
            c.out ++ headline options.file m ++ summary t options.quiet seconds,
            c.err ++ faultText t.machine⟩ := by
  unfold run
  rw [EStateM.run_bind, run_execute]
  cases (load disk trace options.file options.config options.maxSteps).run c with
  | error e c => rfl
  | ok m c =>
    simp only
    cases Machine.run.run ⟨c.world, m⟩ with
    | error e t => exact run_conclude _ t _ _ _ _
    | ok outcome t => exact run_conclude _ t _ _ _ _

/-- What a session says about the end of a run that is a journey. -/
def verdict (j : Journey) : String :=
  match j.error with
  | none => outcomeText (j.last.machine.ending j.earlier.length)
  | some _ => ""

/-- A session that steps through a loaded program shows the journey that its input asks for. -/
theorem step_journey {s : State} {input : List UInt8} {n : Nat}
    (hload : (load disk trace file config none).run start = .ok s.machine ⟨s.toWorld, "", ""⟩)
    (hinput : AsksFor n input) :
    ∃ w, (step disk trace file config input).run start =
      closed (s.journey n).error ⟨w, shown (s.journey n), ""⟩ := by
  obtain ⟨lines, rest, hlines, rfl, hreads, hends⟩ := hinput
  obtain ⟨w, hrun⟩ := run_interact_journey hends lines hreads s "" ""
  refine ⟨w, ?_⟩
  unfold step
  rw [EStateM.run_bind, run_begin, hload, hlines]
  rw [String.empty_append] at hrun
  exact hrun

/-- A session that runs a loaded program under a bound shows the last state of a journey of as many steps. -/
theorem run_journey {s t : State} {k : UInt64}
    (hload : (load disk trace file config (some k)).run start = .ok t.machine ⟨t.toWorld, "", ""⟩)
    (hbound : t.machine.settings.maxSteps = some k) (hst : t.Agrees (s.withBound (some k))) (quiet : Bool)
    (seconds : String) :
    ∃ d, (run disk trace ⟨file, config, some k, quiet⟩ seconds).run start = closed (s.journey k.toNat).error d ∧
      d.out = headline file s.machine ++ verdict (s.journey k.toNat) ++
        summary (s.journey k.toNat).last quiet seconds := by
  obtain ⟨u, hu, hrun⟩ := Machine.runFrom_journey k.toNat 0 t hbound (Nat.zero_add _).symm
  obtain ⟨hlast, herror, hearlier⟩ := State.journey_withBound k.toNat hst
  have hsame := hu.trans hlast
  have hheadline : headline file t.machine = headline file s.machine := by
    rw [hst.2]
    rfl
  have hsummary : summary u quiet seconds = summary (s.journey k.toNat).last quiet seconds := by
    unfold summary
    rw [State.dump_of_agrees hsame, hsame.2]
    rfl
  have hending : ∀ n, (t.journey k.toNat).last.machine.ending n = (s.journey k.toNat).last.machine.ending n := by
    intro n
    rw [hlast.2]
    rfl
  rw [run_run, hload]
  simp only
  rw [Machine.run_run, hrun, herror, Nat.zero_add]
  unfold verdict
  cases (s.journey k.toNat).error with
  | none =>
    refine ⟨_, rfl, ?_⟩
    simp only
    rw [String.empty_append, hheadline, hsummary, hending, hearlier]
  | some e =>
    refine ⟨_, rfl, ?_⟩
    simp only
    rw [String.empty_append, hheadline, hsummary, String.append_empty]

/-- **Stepping through a program and running it agree.** Input that asks for `k` steps and a bound of `k` steps
lead to one end, whatever bound the settings document has. Either the files cannot be loaded, and both sessions
say so and print nothing; or both go on the journey of `k` steps from the loaded state. Then the last state that
the one shows is the state that the other shows, and both end with the journey's error, if it has one. -/
theorem step_run_agree (disk : Disk) (trace : Bool) (file : String) (config : Option String) (quiet : Bool)
    (seconds : String) {input : List UInt8} {k : UInt64} (hinput : AsksFor k.toNat input) :
    let stepped := (invoke disk input seconds ⟨trace, .step file config⟩).run start
    let ran := (invoke disk input seconds ⟨trace, .run ⟨file, config, some k, quiet⟩⟩).run start
    (∃ e c d, (begin disk trace file config).run start = .error e c ∧
        stepped = .error e c ∧ ran = .error e d ∧ c.out = "" ∧ d.out = "") ∨
      ∃ (s : State) (c d : Console),
        (begin disk trace file config).run start = .ok s.machine ⟨s.toWorld, s.dump, ""⟩ ∧
        let j := s.journey k.toNat
        stepped = closed j.error c ∧ ran = closed j.error d ∧
        c.out = String.join (j.earlier.map screen) ++ (j.last.dump ++ question j.last.machine) ∧
        d.out = headline file s.machine ++ verdict j ++ "\n" ++ j.last.dump ++
          if quiet then "" else j.last.machine.tally.report seconds := by
  intro stepped ran
  obtain ⟨e, he⟩ | ⟨s, hs, hbounded⟩ := load_cases disk trace file config
  · obtain ⟨w, hw⟩ := he none
    obtain ⟨w', hw'⟩ := he (some k)
    have hbegin : (begin disk trace file config).run start = .error e ⟨w, "", ""⟩ := by rw [run_begin, hw]
    refine Or.inl ⟨e, ⟨w, "", ""⟩, ⟨w', "", ""⟩, hbegin, ?_, ?_, rfl, rfl⟩
    · show (step disk trace file config input).run start = _
      unfold step
      rw [EStateM.run_bind, hbegin]
    · show (run disk trace _ seconds).run start = _
      rw [run_run, hw']
  · obtain ⟨t, ht, hbound, hst⟩ := hbounded k
    obtain ⟨w, hstepped⟩ := step_journey hs hinput
    obtain ⟨d, hran, hout⟩ := run_journey ht hbound hst quiet seconds
    refine Or.inr ⟨s, _, d, ?_, hstepped, hran, rfl, ?_⟩
    · rw [run_begin, hs]
      simp only [String.empty_append]
      rfl
    · rw [hout]
      unfold summary
      simp only [String.append_assoc]

/-- The second of three instructions fails. Two lines of input lead there, and a line that asks to quit is not
read; a run of at most two steps ends with the same error and shows the same state. -/
theorem step_run_agree_fault :
    let disk : Disk := fun _ => .ok "mov ax, 1\nmov al, ax\nmov bx, 2".toUTF8
    let input : List UInt8 := [32, 10, 13, 10, 81, 10]
    AsksFor (2 : UInt64).toNat input ∧
      ∃ (shown : String) (last : State) (c d : Console), last.machine.ip = 1 ∧
        (invoke disk input "0" ⟨false, .step "p" none⟩).run start = .error (.widthMismatch 1 2) c ∧
        (invoke disk input "0" ⟨false, .run ⟨"p", none, some 2, true⟩⟩).run start =
          .error (.widthMismatch 1 2) d ∧
        c.out = shown ++ (last.dump ++ question last.machine) ∧
        d.out = headline "p" last.machine ++ "\n" ++ last.dump := by
  intro disk input
  have hinput : AsksFor (2 : UInt64).toNat input := by
    have hquits : Reads [81] true := ⟨"Q", by decide +kernel, by decide +kernel⟩
    refine ⟨[[32], []], [[81]], by decide +kernel, rfl, ?_, Or.inr ⟨[81], [], rfl, hquits⟩⟩
    intro line hline
    rcases List.mem_cons.1 hline with rfl | hline
    · exact ⟨" ", by decide +kernel, by decide +kernel⟩
    · rw [List.mem_singleton.1 hline]
      exact ⟨"", by decide +kernel, by decide +kernel⟩
  have hjourney : (match (begin disk false "p" none).run start with
      | .ok m c =>
        let j := State.journey 2 ⟨c.world, m⟩
        decide (j.error = some (.widthMismatch 1 2) ∧ j.last.machine.ip = 1 ∧ j.last.machine.program = m.program)
      | .error _ _ => false) = true := by decide +kernel
  refine ⟨hinput, ?_⟩
  obtain ⟨e, c, d, hbegin, -⟩ | ⟨s, c, d, hbegin, hstepped, hran, hc, hd⟩ :=
    step_run_agree disk false "p" none true "0" hinput
  · rw [hbegin] at hjourney
    cases hjourney
  · rw [hbegin] at hjourney
    obtain ⟨herror, hip, hprogram⟩ := of_decide_eq_true hjourney
    have hclosed : ∀ c, closed (s.journey (2 : UInt64).toNat).error c = .error (.widthMismatch 1 2) c := by
      intro c
      exact congrArg (closed · c) herror
    have hverdict : verdict (s.journey (2 : UInt64).toNat) = "" := by
      unfold verdict
      rw [show (s.journey (2 : UInt64).toNat).error = _ from herror]
    have hheadline : headline "p" (s.journey (2 : UInt64).toNat).last.machine = headline "p" s.machine := by
      unfold headline
      rw [show (s.journey (2 : UInt64).toNat).last.machine.program = _ from hprogram]
    refine ⟨_, _, c, d, hip, hstepped.trans (hclosed c), hran.trans (hclosed d), hc, ?_⟩
    rw [hd, hverdict, if_pos rfl, String.append_empty, String.append_empty]
    exact congrArg (· ++ "\n" ++ _) hheadline.symm

end Session
end Octet
