import Frankenrust.Orchestrator.Watermark

/-! The signal by which workers tell `retro_thread` of `loop.py` that there is something new to look
at, with the end of `cmd_run`: which merges no pass has counted yet. -/
namespace Frankenrust.Orchestrator.Signal
open Program Relation

/-- Beside the calls of a pass there are those on the two events, on the pool and on the thread. -/
inductive Command
  | retro (command : Watermark.Command)
  | nextRetroCycle
  | retroStopIsSet
  | mergeSignalWait
  | mergeSignalClear
  | mergeSignalSet
  | retroStopSet
  | submitted
  | returned
  | shutdown
  | join
  deriving DecidableEq

abbrev Answer : Command → Type
  | .retro command => Watermark.Answer command
  | .retroStopIsSet | .mergeSignalWait => Bool
  | .nextRetroCycle | .mergeSignalClear | .mergeSignalSet | .retroStopSet | .submitted | .returned | .shutdown | .join => Unit

abbrev Steps := Program Command Answer

abbrev call (command : Command) : Steps (Answer command) := Program.invoke command

def carry (command : Watermark.Command) : Steps (Watermark.Answer command) := call (.retro command)

def retrospective (numbered : Bool) : Steps Unit := (Watermark.retrospective numbered).expand carry

def recordOther : Steps Unit := call (.retro (.record .other))

/-- One turn of the loop. -/
def retroThread : Steps Unit := do
  let stopped ← call .retroStopIsSet
  if stopped then pure ()
  else do
    let up ← call .mergeSignalWait
    if up then do
      let _ ← call .mergeSignalClear
      ((call .nextRetroCycle).bind fun _ => retrospective true).handle recordOther
    else pure ()

/-- The last that `work` does for a branch that is on main. -/
def merged : Steps Unit := do
  let _ ← recordOther
  call .mergeSignalSet

def work : Steps Unit := do
  let _ ← call .submitted
  merged.ensure (call .returned)

/-- The end of `cmd_run`: the pool has shut down before the thread is told to stop. -/
def finish : Steps Unit := do
  let _ ← call .shutdown
  let _ ← call .retroStopSet
  let _ ← call .join
  retrospective false

/-- `evidence` has the lines of the journal when a merge was last signalled and `counted` the most that a pass has counted.
The thread is `hearing` from when it has cleared the signal until its pass has counted, and has `failed` once it raised. -/
structure Hall (W : Type) where
  journal : List Watermark.Line
  mergeSignal : Bool
  retroStop : Bool
  active : W → Bool
  closed : Bool
  evidence : Nat
  counted : Nat
  hearing : Bool
  failed : Bool

/-- In other processes there are further passes and records. -/
inductive Member (W O : Type)
  | worker (w : W)
  | retroThread
  | main
  | other (o : O)
  deriving DecidableEq

section Contract
variable {W O : Type} [DecidableEq W] [DecidableEq O] (m : Member W O)

def activate (busy : Bool) (now : Hall W) : Hall W :=
  match m with
  | .worker w => { now with active := Function.update now.active w busy }
  | _ => now

def effect : (command : Command) → Option (Answer command) → Hall W → Hall W
  | .mergeSignalClear,_,now => { now with mergeSignal := false, hearing := true }
  | .mergeSignalSet,_,now => { now with mergeSignal := true, evidence := now.journal.length }
  | .retroStopSet,_,now => { now with retroStop := true }
  | .submitted,_,now => activate m true now
  | .returned,_,now => activate m false now
  | .shutdown,_,now => { now with closed := true }
  | .retro .countLines,some through,now =>
    { now with counted := max now.counted through, hearing := now.hearing && m ≠ .retroThread }
  | _,_,now => now

/-- When a call may answer so; `with` leaves the pool once no worker runs, and it takes none from then on. -/
def admits (now : Hall W) : (command : Command) → Option (Answer command) → List Watermark.Line → Prop
  | .retro .journalExists,answer,journal => journal = now.journal ∧ (answer = some false → now.journal = [])
  | .retro command,answer,journal => Watermark.writes now.journal command answer journal
  | .nextRetroCycle,_,journal => Watermark.grows none now.journal journal
  | .retroStopIsSet,answer,journal => journal = now.journal ∧ ∀ stopped ∈ answer, stopped = now.retroStop
  | .mergeSignalWait,answer,journal => journal = now.journal ∧ (answer = some true → now.mergeSignal = true)
  | .submitted,_,journal => journal = now.journal ∧ now.closed = false
  | .shutdown,_,journal => journal = now.journal ∧ ∀ w, now.active w = false
  | .mergeSignalClear,_,journal | .mergeSignalSet,_,journal | .retroStopSet,_,journal | .returned,_,journal
  | .join,_,journal => journal = now.journal

def raised (answer : Option Unit) (now : Hall W) : Hall W :=
  if m = .retroThread ∧ answer = none then { now with failed := true } else now

def does (command : Command) (now : Hall W) (answer : Option (Answer command)) (later : Hall W) : Prop :=
  ∃ journal, admits now command answer journal ∧
    later = { raised m (answer.map fun _ => ()) (effect m command answer now) with journal }

def permits (command : Command) (now : Hall W) : Prop :=
  match command with
  | .mergeSignalClear => m = .retroThread
  | .mergeSignalSet => ∃ w, m = .worker w ∧ now.active w = true
  | _ => True

def sharing : Contract Command Answer (Hall W) := ⟨permits m,does m⟩

end Contract

section Halls
variable {W O : Type}

/-- A merge that was signalled has been counted by a pass, or the signal is up, or the thread has cleared it for a pass. -/
structure Sound (hall : Hall W) : Prop where
  written : hall.evidence ≤ hall.journal.length
  heard : hall.evidence ≤ hall.counted ∨ hall.mergeSignal = true ∨ hall.hearing = true

/-- The thread owes nothing. -/
def Settled (hall : Hall W) : Prop := hall.hearing = false ∨ hall.failed = true ∨ hall.evidence = 0 ∨ hall.mergeSignal = true

def Idle (hall : Hall W) : Prop := hall.closed = true ∧ ∀ w, hall.active w = false

/-- What the others leave a member. -/
structure Others (m : Member W O) (now later : Hall W) : Prop where
  sound : Sound now → Sound later
  settled : m = .retroThread → Settled now → Settled later
  active : ∀ w, m = .worker w → later.active w = now.active w
  idle : m = .main → Idle now → Idle later ∧ later.evidence = now.evidence ∧ now.counted ≤ later.counted

end Halls

section Calls
variable {W O : Type} [DecidableEq W] [DecidableEq O] {m j : Member W O} {command : Command} {answer : Option (Answer command)}
  {now later : Hall W}

omit [DecidableEq W] in
theorem admits_longer {journal : List Watermark.Line} (admitted : admits now command answer journal) :
    now.journal.length ≤ journal.length := by
  have same (unchanged : journal = now.journal) : now.journal.length ≤ journal.length := unchanged ▸ Nat.le_refl _
  have grown {claims : Option Nat} (grows : Watermark.grows claims now.journal journal) : now.journal.length ≤ journal.length :=
    (Watermark.grows_longer grows).length_le
  match command with
  | .retro .journalExists | .retroStopIsSet | .mergeSignalWait | .submitted | .shutdown => exact same admitted.1
  | .retro .countLines | .retro .prevRetroThrough => exact same admitted.1
  | .retro .readPrompts | .retro .reportState => exact same admitted
  | .retro .claimRetroCycle | .retro (.invoke _) | .retro (.record .other) | .retro (.record (.retrospective none)) => exact grown admitted
  | .retro (.record (.retrospective (some _))) => exact grown admitted
  | .nextRetroCycle => exact grown admitted
  | .mergeSignalClear | .mergeSignalSet | .retroStopSet | .returned | .join => exact same admitted

/-- All that a call does. -/
structure Effects (m : Member W O) (command : Command) (answer : Option (Answer command)) (now later : Hall W) : Prop where
  journal : now.journal.length ≤ later.journal.length
  mergeSignal : later.mergeSignal = ((now.mergeSignal || command = .mergeSignalSet) && command ≠ .mergeSignalClear)
  evidence : later.evidence = if command = .mergeSignalSet then now.journal.length else now.evidence
  counted : now.counted ≤ later.counted
  hearing : later.hearing = true → now.hearing = true ∨ command = .mergeSignalClear
  clears : command = .mergeSignalClear → later.hearing = true
  heard : now.hearing = true → later.hearing = false → now.journal.length ≤ later.counted
  hears : m ≠ .retroThread → now.hearing = true → later.hearing = true
  failed : now.failed = true → later.failed = true
  raises : m = .retroThread → answer = none → later.failed = true
  closed : now.closed = true → later.closed = true
  active : ∀ w, m ≠ .worker w → later.active w = now.active w
  submits : ∀ w, later.active w = true → now.active w = true ∨ now.closed = false

/-- A call that only adds to the journal. -/
theorem Effects.quiet {journal : List Watermark.Line} (longer : now.journal.length ≤ journal.length) (sets : command ≠ .mergeSignalSet)
    (clears : command ≠ .mergeSignalClear) : Effects m command answer now { raised m (answer.map fun _ => ()) now with journal } := by
  unfold raised
  split <;> constructor <;> simp_all

theorem effects (did : does m command now answer later) : Effects m command answer now later := by
  obtain ⟨journal,admitted,rfl⟩ := did
  have longer := admits_longer admitted
  match command,answer with
  | .retro .countLines,some through =>
    have counts : through = now.journal.length := admitted.2 through rfl
    subst counts
    simp only [raised,Option.map_some,reduceCtorEq,and_false,if_false,effect]
    constructor <;> simp_all
  | .retro .countLines,none => exact .quiet longer nofun nofun
  | .retro .journalExists,_ | .retro .claimRetroCycle,_ | .retro .prevRetroThrough,_ | .retro .readPrompts,_ | .retro .reportState,_
  | .retro (.invoke _),_ | .retro (.record _),_ => exact .quiet longer nofun nofun
  | .nextRetroCycle,_ | .retroStopIsSet,_ | .mergeSignalWait,_ | .join,_ => exact .quiet longer nofun nofun
  | .mergeSignalClear,_ | .mergeSignalSet,_ | .retroStopSet,_ | .shutdown,_ =>
    simp only [effect,raised]
    split <;> constructor <;> simp_all
  | .submitted,_ =>
    have opened : now.closed = false := admitted.2
    cases m with
    | worker w =>
      simp only [effect,activate,raised]
      rw [if_neg (by simp)]
      constructor <;> simp_all [Function.update_apply]
      exact fun other apart same => absurd same.symm apart
    | _ => exact .quiet longer nofun nofun
  | .returned,_ =>
    cases m with
    | worker w =>
      simp only [effect,activate,raised]
      rw [if_neg (by simp)]
      constructor <;> simp_all [Function.update_apply]
      exact fun other apart _ => Ne.symm apart
    | _ => exact .quiet longer nofun nofun

theorem sound_call (did : does m command now answer later) (sound : Sound now) : Sound later := by
  have effects := effects did
  refine ⟨?_,?_⟩
  · rw [effects.evidence]
    split
    · exact effects.journal
    · exact Nat.le_trans sound.written effects.journal
  · by_cases sets : command = .mergeSignalSet
    · exact .inr (.inl (by simp [effects.mergeSignal,sets]))
    · rw [effects.evidence,if_neg sets]
      rcases sound.heard with counted | up | hearing
      · exact .inl (Nat.le_trans counted effects.counted)
      · by_cases clears : command = .mergeSignalClear
        · exact .inr (.inr (effects.clears clears))
        · exact .inr (.inl (by simp [effects.mergeSignal,up,clears]))
      · cases still : later.hearing with
        | true => exact .inr (.inr rfl)
        | false => exact .inl (Nat.le_trans sound.written (effects.heard hearing still))

theorem settled_call (did : does m command now answer later) (clears : command ≠ .mergeSignalClear) (settled : Settled now) :
    Settled later := by
  have effects := effects did
  by_cases sets : command = .mergeSignalSet
  · exact .inr (.inr (.inr (by simp [effects.mergeSignal,sets])))
  · rcases settled with quiet | failed | nothing | up
    · refine .inl (Bool.eq_false_iff.mpr fun hearing => ?_)
      rcases effects.hearing hearing with before | cleared
      · exact Bool.eq_false_iff.mp quiet before
      · exact clears cleared
    · exact .inr (.inl (effects.failed failed))
    · exact .inr (.inr (.inl (by rw [effects.evidence,if_neg sets,nothing])))
    · exact .inr (.inr (.inr (by simp [effects.mergeSignal,up,clears])))

theorem idle_call (did : does m command now answer later) (permitted : permits m command now) (idle : Idle now) :
    Idle later ∧ later.evidence = now.evidence ∧ now.counted ≤ later.counted := by
  have effects := effects did
  have quiet : command ≠ .mergeSignalSet := by
    rintro rfl
    obtain ⟨w,_,busy⟩ := permitted
    exact Bool.eq_false_iff.mp (idle.2 w) busy
  refine ⟨⟨effects.closed idle.1,fun w => Bool.eq_false_iff.mpr fun busy => ?_⟩,by rw [effects.evidence,if_neg quiet],effects.counted⟩
  rcases effects.submits w busy with before | opened
  · exact Bool.eq_false_iff.mp (idle.2 w) before
  · exact Bool.eq_false_iff.mp opened idle.1

theorem Others.of_call (apart : j ≠ m) (permitted : permits m command now) (did : does m command now answer later) : Others j now later where
  sound := sound_call did
  settled thread := settled_call did fun clears => by
    subst clears
    exact apart (thread.trans permitted.symm)
  active w worker := (effects did).active w fun own => apart (worker.trans own.symm)
  idle _ := idle_call did permitted

omit [DecidableEq W] [DecidableEq O] in
theorem Others.within {last : Hall W} (reached : ReflTransGen (Others m) now last) : Others m now last := by
  induction reached with
  | refl => exact ⟨id,fun _ => id,fun _ _ => rfl,fun _ idle => ⟨idle,rfl,Nat.le_refl _⟩⟩
  | tail _ moved ih =>
    refine ⟨moved.sound ∘ ih.sound,fun thread => moved.settled thread ∘ ih.settled thread,
      fun w worker => (moved.active w worker).trans (ih.active w worker),fun main idle => ?_⟩
    obtain ⟨middle,same,more⟩ := ih.idle main idle
    obtain ⟨still,again,most⟩ := moved.idle main middle
    exact ⟨still,again.trans same,Nat.le_trans more most⟩

end Calls

section Programs
variable {W O : Type} [DecidableEq W] [DecidableEq O] {m : Member W O} {now later : Hall W} {command : Command}

abbrev alongside (m : Member W O) : Contract Command Answer (Hall W) := (sharing m).among (Others m)

/-- The calls of a pass as its member makes them among the others. -/
def passing (m : Member W O) : Contract Watermark.Command Watermark.Answer (Hall W) :=
  ⟨fun _ _ => True,fun command => (alongside m).after (.retro command)⟩

/-- What a pass has reached once it has counted, or found no journal. -/
theorem wp_retrospective {Before After : Hall W → Prop} {post : Option Unit → Hall W → Prop}
    (keeps : ∀ command value now later, Before now → (passing m).after command now (some value) later → Before later)
    (raises : ∀ command now later, Before now → (passing m).after command now none later → post none later)
    (absent : ∀ now later, Before now → (passing m).after .journalExists now (some false) later → After later)
    (counts : ∀ through now later, Before now → (passing m).after .countLines now (some through) later → After later)
    (stays : ∀ command answer now later, After now → (passing m).after command now answer later → After later)
    (ends : ∀ outcome state, After state → post outcome state) (numbered : Bool) (before : Before now) :
    (retrospective numbered).wp (alongside m) post now := by
  have meets (command : Watermark.Command) (state : Hall W) (_ : (passing m).guard command state) : (carry command).wp
      (alongside m) (fun answer later => (passing m).after command state answer later) state :=
    ⟨trivial,fun _ _ reached => reached⟩
  refine wp_expand meets ?_
  have analyses {state : Hall W} (before : Before state) : Watermark.analyse.wp (passing m) post state := by
    refine ⟨trivial,?_⟩
    rintro (_ | through) later reached
    · exact raises _ _ _ before reached
    · refine wp_mono ends (wp_invariant (fun command state holds => ⟨trivial,fun answer later => ?_⟩) (counts through _ _ before reached))
      exact stays command answer state later holds
  refine ⟨trivial,?_⟩
  rintro (_ | there) later reached
  · exact raises _ _ _ before reached
  · cases there with
    | false => exact ends _ _ (absent _ _ before reached)
    | true =>
      have held := keeps _ _ _ _ before reached
      cases numbered with
      | false => exact analyses held
      | true =>
        refine ⟨trivial,?_⟩
        rintro (_ | _) last claimed
        · exact raises _ _ _ held claimed
        · exact analyses (keeps _ _ _ _ held claimed)

/-- What a member's own call and the others make of a state. -/
theorem among_sound {answer : Option (Answer command)} (reached : (alongside m).after command now answer later) (sound : Sound now) :
    Sound later := by
  obtain ⟨middle,did,moved⟩ := reached
  exact (Others.within moved).sound (sound_call did sound)

theorem among_settled {answer : Option (Answer command)} (reached : (alongside (.retroThread : Member W O)).after command now answer later)
    (clears : command ≠ .mergeSignalClear) (settled : Settled now) : Settled later := by
  obtain ⟨middle,did,moved⟩ := reached
  exact (Others.within moved).settled rfl (settled_call did clears settled)

theorem among_idle {answer : Option (Answer command)} (reached : (alongside (.main : Member W O)).after command now answer later)
    (permitted : permits (.main : Member W O) command now) (idle : Idle now) :
    Idle later ∧ later.evidence = now.evidence ∧ now.counted ≤ later.counted := by
  obtain ⟨middle,did,moved⟩ := reached
  obtain ⟨between,same,more⟩ := idle_call did permitted idle
  obtain ⟨still,again,most⟩ := (Others.within moved).idle rfl between
  exact ⟨still,again.trans same,Nat.le_trans more most⟩

/-- A call of the thread that raises leaves it failed. -/
theorem raises_settled (reached : (alongside (.retroThread : Member W O)).after command now none later) : Settled later := by
  obtain ⟨middle,did,moved⟩ := reached
  exact (Others.within moved).settled rfl (.inr (.inl ((effects did).raises rfl rfl)))

/-- Without a journal nothing has been signalled. -/
theorem absent_evidence (sound : Sound now) (did : does m (.retro .journalExists) now (some false) later) : later.evidence = 0 := by
  have empty : now.journal = [] := by
    obtain ⟨journal,admitted,_⟩ := did
    exact admitted.2 rfl
  have bounded := sound.written
  rw [empty,List.length_nil] at bounded
  rw [(effects did).evidence,if_neg nofun]
  omega

theorem counts_journal {through : Nat} (did : does m (.retro .countLines) now (some through) later) : now.journal.length ≤ later.counted := by
  obtain ⟨journal,admitted,rfl⟩ := did
  have counts : through = now.journal.length := admitted.2 through rfl
  subst counts
  simp [raised,effect]

theorem counts_hearing {through : Nat} (did : does (.retroThread : Member W O) (.retro .countLines) now (some through) later) :
    later.hearing = false := by
  obtain ⟨journal,_,rfl⟩ := did
  simp [raised,effect]

/-- The pass of the thread owes nothing at its end, unless it has raised. -/
theorem thread_retrospective (sound : Sound now) : (retrospective true).wp (alongside (.retroThread : Member W O))
    (orElse (alongside (.retroThread : Member W O)) (fun _ => Settled) recordOther) now := by
  have records {state : Hall W} (settled : Settled state) : recordOther.wp (alongside (.retroThread : Member W O)) (fun _ => Settled) state :=
    ⟨trivial,fun _ _ reached => among_settled reached nofun settled⟩
  apply wp_retrospective (fun _ _ _ _ sound reached => among_sound reached sound)
  · exact fun _ _ _ _ reached => records (raises_settled reached)
  · rintro now later sound ⟨middle,did,moved⟩
    exact (Others.within moved).settled rfl (.inr (.inr (.inl (absent_evidence sound did))))
  · rintro through now later _ ⟨middle,did,moved⟩
    exact (Others.within moved).settled rfl (.inl (counts_hearing did))
  · exact fun _ _ _ _ settled reached => among_settled reached nofun settled
  · rintro (_ | _) state settled
    · exact records settled
    · exact settled
  · exact sound

theorem wp_retroThread (sound : Sound now) (settled : Settled now) :
    retroThread.wp (alongside (.retroThread : Member W O)) (fun _ => Settled) now := by
  refine ⟨trivial,?_⟩
  rintro (_ | stopped) second first
  · exact raises_settled first
  have settled := among_settled first nofun settled
  have sound := among_sound first sound
  cases stopped with
  | true => exact settled
  | false =>
    refine ⟨trivial,?_⟩
    rintro (_ | up) third waited
    · exact raises_settled waited
    have settled := among_settled waited nofun settled
    have sound := among_sound waited sound
    cases up with
    | false => exact settled
    | true =>
      refine ⟨rfl,?_⟩
      rintro (_ | _) fourth cleared
      · exact raises_settled cleared
      have sound := among_sound cleared sound
      refine wp_handle.mpr ⟨trivial,?_⟩
      rintro (_ | _) fifth numbered
      · exact ⟨trivial,fun _ _ reached => among_settled reached nofun (raises_settled numbered)⟩
      · exact thread_retrospective (among_sound numbered sound)

/-- A worker signals only while it runs. -/
theorem wp_work {w : W} : work.wp (alongside (.worker w : Member W O)) (fun _ _ => True) now := by
  refine ⟨trivial,?_⟩
  rintro (_ | _) second ⟨middle,⟨journal,_,rfl⟩,moved⟩
  · exact trivial
  have busy : second.active w = true := by
    rw [(Others.within moved).active w rfl]
    simp [raised,effect,activate]
  have returns (outcome : Option Unit) (state : Hall W) : ((call .returned).bind fun _ => .done outcome).wp
      (alongside (.worker w : Member W O)) (fun _ _ => True) state := by
    refine ⟨trivial,?_⟩
    rintro (_ | _) _ _ <;> trivial
  refine wp_ensure.mpr ⟨trivial,?_⟩
  rintro (_ | _) third ⟨middle,did,moved⟩
  · exact returns none third
  have still : third.active w = true := by
    obtain ⟨journal,_,rfl⟩ := did
    rw [(Others.within moved).active w rfl]
    simpa [raised,effect] using busy
  exact ⟨⟨w,rfl,still⟩,fun answer later _ => returns answer later⟩

/-- Where the run ends as it should, its last pass has counted all that was ever signalled. -/
def Finished : Option Unit → Hall W → Prop
  | some _,hall => hall.evidence ≤ hall.counted
  | none,_ => True

theorem main_retrospective (sound : Sound now) (idle : Idle now) :
    (retrospective false).wp (alongside (.main : Member W O)) Finished now := by
  have keeps {command : Watermark.Command} {answer : Option (Watermark.Answer command)} {now later : Hall W}
      (held : Sound now ∧ Idle now) (reached : (passing (.main : Member W O)).after command now answer later) : Sound later ∧ Idle later :=
    ⟨among_sound reached held.1,(among_idle reached trivial held.2).1⟩
  have counted {command : Watermark.Command} {answer : Option (Watermark.Answer command)} {now middle later : Hall W}
      (idle : Idle now) (did : does (.main : Member W O) (.retro command) now answer middle)
      (moved : ReflTransGen (Others (.main : Member W O)) middle later) (covers : middle.evidence ≤ middle.counted) :
      Idle later ∧ later.evidence ≤ later.counted := by
    obtain ⟨still,same,more⟩ := (Others.within moved).idle rfl (idle_call did trivial idle).1
    exact ⟨still,by omega⟩
  have absent (now later : Hall W) (held : Sound now ∧ Idle now)
      (reached : (passing (.main : Member W O)).after .journalExists now (some false) later) :
      Idle later ∧ later.evidence ≤ later.counted := by
    obtain ⟨middle,did,moved⟩ := reached
    exact counted held.2 did moved (absent_evidence held.1 did ▸ Nat.zero_le _)
  have counts (through : Nat) (now later : Hall W) (held : Sound now ∧ Idle now)
      (reached : (passing (.main : Member W O)).after .countLines now (some through) later) :
      Idle later ∧ later.evidence ≤ later.counted := by
    obtain ⟨middle,did,moved⟩ := reached
    refine counted held.2 did moved ?_
    rw [(idle_call did trivial held.2).2.1]
    exact Nat.le_trans held.1.written (counts_journal did)
  refine wp_retrospective (fun _ _ _ _ => keeps) (fun _ _ _ _ _ => trivial) absent counts ?_ ?_ false ⟨sound,idle⟩
  · rintro _ _ now later ⟨idle,counted⟩ reached
    obtain ⟨still,same,more⟩ := among_idle reached trivial idle
    exact ⟨still,by omega⟩
  · rintro (_ | _) state ⟨_,counted⟩
    · trivial
    · exact counted

theorem wp_finish (sound : Sound now) : finish.wp (alongside (.main : Member W O)) Finished now := by
  refine ⟨trivial,?_⟩
  rintro (_ | _) second shut
  · exact trivial
  have sound := among_sound shut sound
  have idle : Idle second := by
    obtain ⟨middle,⟨journal,admitted,rfl⟩,moved⟩ := shut
    exact ((Others.within moved).idle rfl ⟨rfl,admitted.2⟩).1
  refine ⟨trivial,?_⟩
  rintro (_ | _) third stopped
  · exact trivial
  have sound := among_sound stopped sound
  have idle := (among_idle stopped trivial idle).1
  refine ⟨trivial,?_⟩
  rintro (_ | _) fourth joined
  · exact trivial
  exact main_retrospective (among_sound joined sound) (among_idle joined trivial idle).1

end Programs

section Runs
variable {W O : Type} [DecidableEq W] [DecidableEq O]

def starts : Member W O → Steps Unit → Prop
  | .worker _,program => program = work
  | .retroThread,program => program = retroThread
  | .main,program => program = finish
  | .other _,program => program = retrospective true ∨ program = recordOther

abbrev Lanes (W O : Type) := Crew (Member W O) Command Answer Unit (Hall W)

abbrev Step : Lanes W O → Lanes W O → Prop := Crew.Steps sharing starts

def opening (first : List Watermark.Line) : Lanes W O :=
  ⟨⟨first,false,false,fun _ => false,false,0,0,false,false⟩,fun _ => .done none⟩

def Ended (m : Member W O) (outcome : Option Unit) (hall : Hall W) : Prop :=
  match m with
  | .retroThread => Settled hall
  | .main => Finished outcome hall
  | _ => True

theorem safe_opening {first : List Watermark.Line} : Crew.Safe sharing Others Ended Sound (opening first : Lanes W O) := by
  refine ⟨⟨Nat.zero_le _,.inl (Nat.le_refl _)⟩,?_⟩
  intro m later reached
  cases m with
  | retroThread => exact (Others.within reached).settled rfl (.inl rfl)
  | worker | main | other => trivial

theorem safe_run {first : List Watermark.Line} {last : Lanes W O} (ran : ReflTransGen Step (opening first) last) :
    Crew.Safe sharing Others Ended Sound last := by
  refine Crew.safe_run ?_ ?_ ?_ ?_ ran safe_opening
  · exact fun m command now answer later _ sound did => sound_call did sound
  · exact fun m j command now answer later apart permitted _ did => Others.of_call apart permitted did
  · exact fun m now later sound moved => moved.sound sound
  · intro m outcome program now begins sound ended
    cases m with
    | worker w => exact begins ▸ wp_work
    | retroThread => exact begins ▸ wp_retroThread sound ended
    | main => exact begins ▸ wp_finish sound
    | other o =>
      rcases begins with rfl | rfl
      · exact wp_retrospective (fun _ _ _ _ (_ : True) _ => (trivial : True)) (fun _ _ _ _ _ => trivial)
          (fun _ _ _ _ => (trivial : True)) (fun _ _ _ _ _ => trivial) (fun _ _ _ _ _ _ => trivial) (fun _ _ _ => trivial) true trivial
      · exact ⟨trivial,fun _ _ _ => trivial⟩

/-- With any number of workers, the thread and passes of other processes in any interleaving: a merge that was signalled
has been counted by a pass, or the signal is still up, or the thread has cleared it for a pass that it is in. Only a pass
that raised may leave one out between two turns, and none is left out where `cmd_run` ends as it should. -/
theorem merges_heard {first : List Watermark.Line} {last : Lanes W O} (ran : ReflTransGen Step (opening first) last) :
    Sound last.shared ∧
    (∀ outcome, last.running .retroThread = .done outcome →
      last.shared.evidence ≤ last.shared.counted ∨ last.shared.mergeSignal = true ∨ last.shared.failed = true) ∧
    ∀ value, last.running .main = .done (some value) → last.shared.evidence ≤ last.shared.counted := by
  have safe := safe_run ran
  refine ⟨safe.sound,fun outcome rests => ?_,fun value ended => safe.finished ended⟩
  have settled : Settled last.shared := safe.finished rests
  rcases safe.sound.heard with counted | up | hearing
  · exact .inl counted
  · exact .inr (.inl up)
  · rcases settled with quiet | failed | nothing | up
    · exact absurd hearing (Bool.eq_false_iff.mp quiet)
    · exact .inr (.inr failed)
    · exact .inl (nothing ▸ Nat.zero_le _)
    · exact .inr (.inl up)

theorem does_admitted {m : Member W O} {command : Command} {answer : Option (Answer command)} {now : Hall W} {journal : List Watermark.Line}
    (admitted : admits now command answer journal) :
    does m command now answer { raised m (answer.map fun _ => ()) (effect m command answer now) with journal } := ⟨journal,admitted,rfl⟩

theorem merges_heard_final : ∃ last : Lanes Unit Empty, ReflTransGen Step (opening []) last ∧
    last.running .main = .done (some ()) ∧ last.shared.evidence = 1 ∧ last.shared.evidence ≤ last.shared.counted := by
  obtain ⟨middle,worked,journal,evidence,idle⟩ : ∃ middle : Hall Unit,
      Runs (sharing (.worker () : Member Unit Empty)) work (opening [] : Lanes Unit Empty).shared
        [⟨.submitted,some ()⟩,⟨.retro (.record .other),some ()⟩,⟨.mergeSignalSet,some ()⟩,⟨.returned,some ()⟩] (some ()) middle ∧
      middle.journal = [.other] ∧ middle.evidence = 1 ∧ ∀ w, middle.active w = false := by
    have grown : Watermark.grows none [] [.other] := ⟨[.other],rfl,by simp⟩
    exact ⟨_,.call (does_admitted ⟨rfl,rfl⟩) (.call (does_admitted grown) (.call (does_admitted rfl) (.call (does_admitted rfl) (.done _ _)))),
      rfl,rfl,fun w => rfl⟩
  obtain ⟨last,ended,same⟩ : ∃ last, Runs (sharing (.main : Member Unit Empty)) finish middle
      [⟨.shutdown,some ()⟩,⟨.retroStopSet,some ()⟩,⟨.join,some ()⟩,⟨.retro .journalExists,some true⟩,⟨.retro .countLines,some 1⟩,
        ⟨.retro .prevRetroThrough,some 0⟩,⟨.retro .readPrompts,some ()⟩,⟨.retro .reportState,some none⟩,⟨.retro (.invoke 1),some (0,[])⟩,
        ⟨.retro .reportState,some none⟩,⟨.retro (.record (.retrospective (Watermark.coverage 1 none none (0,[])))),some ()⟩] (some ()) last ∧
      last.evidence = 1 := by
    obtain ⟨lines,mergeSignal,retroStop,active,closed,evidence,counted,hearing,failed⟩ := middle
    subst journal evidence
    have still : Watermark.grows none [.other] [.other] := ⟨[],rfl,nofun⟩
    have covers : Watermark.coverage 1 none none (0,[]) = none := by decide
    have noted (now : Hall Unit) : admits now (.retro (.record (.retrospective (Watermark.coverage 1 none none (0,[]))))) (some ())
        (now.journal ++ [.retrospective none]) := by
      rw [covers]
      exact ⟨[.retrospective none],rfl,fun through member => by simp_all⟩
    exact ⟨_,.call (does_admitted ⟨rfl,idle⟩) (.call (does_admitted rfl) (.call (does_admitted rfl) (.call (does_admitted ⟨rfl,nofun⟩)
      (.call (does_admitted ⟨rfl,fun _ count => (Option.some.inj count).symm⟩)
        (.call (does_admitted ⟨rfl,fun _ read => (Option.some.inj read).symm⟩) (.call (does_admitted rfl) (.call (does_admitted rfl)
          (.call (does_admitted still) (.call (does_admitted rfl) (.call (does_admitted (noted _)) (.done _ _))))))))))),rfl⟩
  have began : Step (opening []) (Crew.put (opening []) (.worker ()) (opening [] : Lanes Unit Empty).shared work) := .start rfl rfl
  have ran := ReflTransGen.head began (Crew.alone worked)
  have rests : (Crew.put (opening []) (.worker ()) middle (.done (some ())) : Lanes Unit Empty).running .main = .done none := rfl
  have finishing : Step _ (Crew.put (Crew.put (opening []) (.worker ()) middle (.done (some ()))) .main middle finish) := .start rests rfl
  have through := (ran.tail finishing).trans (Crew.alone ended)
  exact ⟨_,through,rfl,same,(merges_heard through).2.2 () rfl⟩

end Runs
end Frankenrust.Orchestrator.Signal
