import Frankenrust.Orchestrator.Life
import Frankenrust.Orchestrator.Stamp

/-! How often an issue returns to the queue. Each counter in the body is at least as high as
the number of returns that it counts, as long as no agent lowers it. -/
namespace Frankenrust.Orchestrator
namespace Life
open Loop
variable {config : Config} {account : Account}

structure Sound (config : Config) (account : Account) : Prop where
  revisions : ∀ n, counter Issue.revisionsKey account.issue.body = some n → account.requeues ≤ n
  recoveries : ∀ n, counter Issue.recoveriesKey account.issue.body = some n → account.unblocks ≤ n
  requeues_le : account.requeues ≤ config.maxRevisions
  unblocks_le : account.unblocks ≤ config.maxRecoveries

/-- Every call leaves the account sound. -/
def contract (config : Config) : Program.Contract Command Answer Account where
  guard command account := ∀ reaction, Keeps account reaction command → Sound config (account.respond reaction command).2
  after command account answer later :=
    ∃ reaction, Keeps account reaction command ∧ account.respond reaction command = (answer,later)

/-- Sound, with the returns counted so far. -/
def Counts (config : Config) (requeues unblocks : Nat) (account : Account) : Prop :=
  Sound config account ∧ account.requeues = requeues ∧ account.unblocks = unblocks

/-- Calls that keep the account sound and return nothing to the queue. -/
def Harmless (config : Config) (command : Command) : Prop :=
  ∀ account reaction, Keeps account reaction command → Sound config account →
    Counts config account.requeues account.unblocks (account.respond reaction command).2

theorem sound_rewrite {body : Text} (sound : Sound config account)
    (revisions : NotLowered Issue.revisionsKey account.issue.body body)
    (recoveries : NotLowered Issue.recoveriesKey account.issue.body body) : Sound config (account.rewrite body) := by
  refine ⟨?_,?_,sound.requeues_le,sound.unblocks_le⟩
  · intro n read
    obtain ⟨lower,before,bound⟩ := revisions n read
    exact (sound.revisions lower before).trans bound
  · intro n read
    obtain ⟨lower,before,bound⟩ := recoveries n read
    exact (sound.recoveries lower before).trans bound

theorem harmless_make : Harmless config .makeWorktree := fun _ _ _ sound => ⟨sound,rfl,rfl⟩
theorem harmless_retire : Harmless config .retireWorktree := fun _ _ _ sound => ⟨sound,rfl,rfl⟩

theorem harmless_inner (command : Command) (inner : command.inner = true) : Harmless config command := by
  intro account reaction keeps sound
  cases command
  case issueList | edit | editBody | mergeWorktree => contradiction
  case invoke stage =>
    obtain ⟨revisions,recoveries⟩ := keeps
    exact ⟨sound_rewrite sound revisions recoveries,rfl,rfl⟩
  case close number =>
    simp only [Account.respond]
    split
    · exact ⟨⟨sound.revisions,sound.recoveries,sound.requeues_le,sound.unblocks_le⟩,rfl,rfl⟩
    · exact ⟨sound,rfl,rfl⟩
  all_goals exact ⟨sound,rfl,rfl⟩

theorem harmless_merge : Harmless config .mergeWorktree := fun _ _ _ sound => ⟨sound,rfl,rfl⟩

/-- An edit that does not return the issue to the queue out of one of the two counted states. -/
theorem harmless_edit {number : Nat} {add remove : List Label}
    (uncounted : .ready ∉ add ∨ .questioned ∉ remove ∧ .blocked ∉ remove) :
    Harmless config (.edit number add remove) := by
  intro account reaction keeps sound
  have requeues : ¬(.ready ∈ add ∧ .questioned ∈ remove) := by grind
  have unblocks : ¬(.ready ∈ add ∧ .blocked ∈ remove) := by grind
  simp only [Account.respond]
  split
  · simp only [Account.relabel,if_neg requeues,if_neg unblocks]
    exact ⟨⟨sound.revisions,sound.recoveries,sound.requeues_le,sound.unblocks_le⟩,rfl,rfl⟩
  · exact ⟨sound,rfl,rfl⟩

theorem wp_counts {α : Type} {program : Work α} {requeues unblocks : Nat} (used : program.uses (Harmless config))
    (counts : Counts config requeues unblocks account) :
    program.wp (contract config) (fun _ => Counts config requeues unblocks) account := by
  apply Program.wp_of_uses used _ counts
  rintro command account harmless ⟨sound,rfl,rfl⟩
  constructor
  · intro reaction keeps
    exact (harmless account reaction keeps sound).1
  · rintro answer later ⟨reaction,keeps,same⟩
    have kept := harmless account reaction keeps sound
    rwa [same] at kept

theorem wp_sound {α : Type} {program : Work α} (used : program.uses (Harmless config)) (sound : Sound config account) :
    program.wp (contract config) (fun _ => Sound config) account := by
  apply Program.wp_mono _ (wp_counts used ⟨sound,rfl,rfl⟩)
  rintro _ _ ⟨sound,_⟩
  exact sound

theorem wp_then {α β : Type} {program : Work α} {rest : α → Work β} {first : Option α → Account → Prop}
    (held : program.wp (contract config) first account)
    (raised : ∀ later, first none later → Sound config later)
    (later : ∀ value later, first (some value) later → (rest value).wp (contract config) (fun _ => Sound config) later) :
    (program.bind rest).wp (contract config) (fun _ => Sound config) account := by
  rw [Program.wp_bind]
  apply Program.wp_mono _ held
  intro outcome account reached
  cases outcome with
  | none => exact raised account reached
  | some value => exact later value account reached

/-- A harmless part, and what follows it with as many returns. -/
theorem wp_before {α β : Type} {program : Work α} {rest : α → Work β} {requeues unblocks : Nat}
    (used : program.uses (Harmless config)) (counts : Counts config requeues unblocks account)
    (later : ∀ value later, Counts config requeues unblocks later →
      (rest value).wp (contract config) (fun _ => Sound config) later) :
    (program.bind rest).wp (contract config) (fun _ => Sound config) account := by
  apply wp_then (wp_counts used counts)
  · exact fun _ counts => counts.1
  · exact later

/-- The counter reads at least `n`. -/
def Counted (key : Text) (n : Nat) (account : Account) : Prop :=
  ∀ highest, counter key account.issue.body = some highest → n ≤ highest

theorem wp_ensured {α : Type} {program : Work α} {cleanup : Work Unit}
    (held : program.wp (contract config) (fun _ => Sound config) account) (calm : cleanup.uses (Harmless config)) :
    (program.ensure cleanup).wp (contract config) (fun _ => Sound config) account := by
  rw [Program.wp_ensure]
  apply Program.wp_mono _ held
  intro outcome account sound
  exact wp_sound (Program.uses_bind calm fun _ => trivial) sound

theorem wp_handled {α : Type} {program handler : Work α}
    (held : program.wp (contract config) (fun _ => Sound config) account) (calm : handler.uses (Harmless config)) :
    (program.handle handler).wp (contract config) (fun _ => Sound config) account := by
  rw [Program.wp_handle]
  apply Program.wp_mono _ held
  intro outcome account sound
  cases outcome with
  | none => exact wp_sound calm sound
  | some value => exact sound

/-- The body is read back and stamped: the own counter is then at least as high as the stamp. -/
theorem wp_restamp {number requeues unblocks n : Nat} {key line : Text}
    (own : ∀ body highest, counter key (stamp key line body) = some highest → n ≤ highest)
    (kept : ∀ account, Counts config requeues unblocks account →
      Sound config (account.rewrite (stamp key line account.issue.body)))
    (counts : Counts config requeues unblocks account) :
    (Gh.restamp number key line).wp (contract config) (fun outcome account =>
      Counts config requeues unblocks account ∧ (outcome = some true → Counted key n account)) account := by
  refine ⟨fun _ _ => counts.1,?_⟩
  rintro answer _ ⟨viewed,_,same⟩
  obtain ⟨rfl,rfl⟩ := Prod.mk.inj same
  cases viewed.outcome with
  | fails => exact ⟨counts,nofun⟩
  | raises => exact ⟨counts,nofun⟩
  | succeeds =>
    have stamped := kept account counts
    constructor
    · intro reaction _
      simp only [Account.respond]
      split
      · exact stamped
      · exact counts.1
    · rintro answer _ ⟨edited,_,same⟩
      obtain ⟨rfl,rfl⟩ := Prod.mk.inj same
      cases edited.outcome with
      | succeeds => exact ⟨⟨stamped,counts.2⟩,fun _ => own _⟩
      | fails => exact ⟨counts,nofun⟩
      | raises applied =>
        refine ⟨?_,nofun⟩
        cases applied with
        | true => exact ⟨stamped,counts.2⟩
        | false => exact counts

theorem wp_edit {number : Nat} {add remove : List Label} (sound : Sound config account)
    (returned : Sound config (account.relabel add remove)) :
    (call (.edit number add remove)).wp (contract config) (fun _ => Sound config) account := by
  have responded (reaction : Reaction) : Sound config (account.respond reaction (.edit number add remove)).2 := by
    simp only [Account.respond]
    split
    · exact returned
    · exact sound
  refine ⟨fun reaction _ => responded reaction,?_⟩
  rintro answer _ ⟨reaction,_,same⟩
  obtain ⟨_,rfl⟩ := Prod.mk.inj same
  exact responded reaction

/-- The body is stamped, and then the issue returns to the queue under the counter just raised. -/
theorem wp_returned {number requeues unblocks n : Nat} {key line : Text} {remove : List Label}
    (counts : Counts config requeues unblocks account)
    (own : ∀ body highest, counter key (stamp key line body) = some highest → n ≤ highest)
    (kept : ∀ account, Counts config requeues unblocks account →
      Sound config (account.rewrite (stamp key line account.issue.body)))
    (returned : ∀ account, Counts config requeues unblocks account → Counted key n account →
      Sound config (account.relabel [.ready] remove)) :
    (do
      let stamped ← Gh.restamp number key line
      if stamped then call (.edit number [.ready] remove) else pure false : Work Bool).wp
        (contract config) (fun _ => Sound config) account := by
  apply wp_then (wp_restamp own kept counts)
  · rintro later ⟨⟨sound,_⟩,_⟩
    exact sound
  · rintro value later ⟨counts,raised⟩
    cases value with
    | false => exact counts.1
    | true => exact wp_edit counts.1 (returned later counts (raised rfl))

/-- One more return to the queue, under a counter that has been raised for it. -/
theorem wp_requeue {number revision requeues unblocks : Nat} (counts : Counts config requeues unblocks account)
    (below : requeues < revision) (bound : revision ≤ config.maxRevisions) :
    (Gh.requeue number revision).wp (contract config) (fun _ => Sound config) account := by
  have own (body : Text) (highest : Nat) (read : counter Issue.revisionsKey
      (stamp Issue.revisionsKey ("Revisions: ".toList ++ decimalText revision) body) = some highest) : revision ≤ highest :=
    stamp_own wordy_revisions (stampLine _ revisions_word revision) rfl read
  apply wp_returned counts own
  · rintro account ⟨sound,rfl,rfl⟩
    refine ⟨?_,?_,sound.requeues_le,sound.unblocks_le⟩
    · intro highest read
      exact below.le.trans (own _ highest read)
    · intro highest read
      have same : counter Issue.recoveriesKey (stamp Issue.revisionsKey ("Revisions: ".toList ++ decimalText revision)
          account.issue.body) = counter Issue.recoveriesKey account.issue.body :=
        stamp_other wordy_revisions wordy_recoveries apart_recoveries (stampLine _ revisions_word revision)
      exact sound.recoveries highest (same.symm.trans read)
  · rintro account ⟨sound,rfl,rfl⟩ raised
    refine ⟨?_,sound.recoveries,below.trans_le bound,sound.unblocks_le⟩
    intro highest read
    exact below.trans_le (raised highest read)

theorem wp_unblock {number recovery requeues unblocks : Nat} (counts : Counts config requeues unblocks account)
    (below : unblocks < recovery) (bound : recovery ≤ config.maxRecoveries) :
    (Gh.unblock number recovery).wp (contract config) (fun _ => Sound config) account := by
  have own (body : Text) (highest : Nat) (read : counter Issue.recoveriesKey
      (stamp Issue.recoveriesKey ("Recoveries: ".toList ++ decimalText recovery) body) = some highest) : recovery ≤ highest :=
    stamp_own wordy_recoveries (stampLine _ recoveries_word recovery) rfl read
  apply wp_returned counts own
  · rintro account ⟨sound,rfl,rfl⟩
    refine ⟨?_,?_,sound.requeues_le,sound.unblocks_le⟩
    · intro highest read
      have same : counter Issue.revisionsKey (stamp Issue.recoveriesKey ("Recoveries: ".toList ++ decimalText recovery)
          account.issue.body) = counter Issue.revisionsKey account.issue.body :=
        stamp_other wordy_recoveries wordy_revisions apart_revisions (stampLine _ recoveries_word recovery)
      exact sound.revisions highest (same.symm.trans read)
    · intro highest read
      exact below.le.trans (own _ highest read)
  · rintro account ⟨sound,rfl,rfl⟩ raised
    refine ⟨sound.revisions,?_,sound.requeues_le,below.trans_le bound⟩
    intro highest read
    exact below.trans_le (raised highest read)

theorem resolution_rewrite {rounds : Nat} {out : Text} (rewrites : resolution config rounds out = .rewrite) :
    rounds < config.maxRevisions := by
  unfold resolution at rewrites
  split at rewrites
  · cases rewrites
  split at rewrites
  · cases rewrites
  split at rewrites
  · rename_i decided
    exact decided.2
  · cases rewrites

theorem wp_resolveQuestion {issue : Issue} {requeues unblocks : Nat} (counts : Counts config requeues unblocks account)
    (below : ∀ rounds, issue.revisions = some rounds → requeues ≤ rounds) :
    (resolveQuestion config issue).wp (contract config) (fun _ => Sound config) account := by
  unfold resolveQuestion
  split
  · exact counts.1
  rename_i rounds read
  have questions : Harmless config (.edit issue.number [.questioned] [.claimed]) := harmless_edit (.inl (by decide))
  have parks : (park issue).uses (Harmless config) := Calls.uses_park harmless_inner questions
  apply wp_before (Calls.uses_guarded harmless_inner) counts
  intro reply account counts
  split
  · apply wp_sound _ counts.1
    apply Program.uses_bind (Calls.uses_call harmless_inner rfl)
    intro _
    exact Program.uses_bind (Calls.uses_call harmless_inner rfl) fun _ => trivial
  · apply wp_sound _ counts.1
    apply Program.uses_bind (Calls.uses_close harmless_inner)
    intro _
    exact Program.uses_bind (Calls.uses_call harmless_inner rfl) fun _ => trivial
  · rename_i rewrites
    have bound : rounds + 1 ≤ config.maxRevisions := resolution_rewrite rewrites
    have requeued : (Gh.requeue issue.number (rounds + 1)).wp (contract config) (fun _ => Sound config) account :=
      wp_requeue counts (Nat.lt_succ_of_le (below rounds read)) bound
    apply wp_then requeued (fun _ => id)
    intro requeued later sound
    apply wp_sound _ sound
    split
    · apply Program.uses_bind (Calls.uses_call harmless_inner rfl)
      intro _
      exact Program.uses_bind (Calls.uses_call harmless_inner rfl) fun _ => trivial
    · exact Program.uses_bind (Calls.uses_call harmless_inner rfl) fun _ => parks
  · exact wp_sound parks counts.1

theorem wp_critique {issue : Issue} {requeues unblocks : Nat} (counts : Counts config requeues unblocks account)
    (below : ∀ rounds, issue.revisions = some rounds → requeues ≤ rounds) :
    (critique config issue).wp (contract config) (fun _ => Sound config) account := by
  apply wp_before (Calls.uses_guarded harmless_inner) counts
  intro reply account counts
  split
  · apply wp_before (Calls.uses_call harmless_inner rfl) counts
    intro _ account counts
    apply wp_before (Calls.uses_call harmless_inner rfl) counts
    intro _ account counts
    exact wp_resolveQuestion counts below
  · exact counts.1

/-- The rounds are read from the body that was fetched before any agent of the run. -/
theorem wp_work {issue : Issue} {requeues unblocks : Nat} (counts : Counts config requeues unblocks account)
    (below : ∀ rounds, issue.revisions = some rounds → requeues ≤ rounds) :
    (work config issue).wp (contract config) (fun _ => Sound config) account := by
  have blocks : Harmless config (.edit issue.number [.blocked] [.claimed]) := harmless_edit (.inl (by decide))
  apply wp_before (Program.uses_invoke.mpr harmless_make) counts
  intro made account counts
  split
  · apply wp_ensured _ (Program.uses_invoke.mpr harmless_retire)
    apply wp_handled _ (Calls.uses_crashed harmless_inner blocks)
    apply wp_before (Calls.uses_call harmless_inner rfl) counts
    intro _ account counts
    apply wp_then (wp_ensured (wp_critique counts below) (Calls.uses_call harmless_inner rfl)) (fun _ => id)
    intro build account sound
    apply wp_sound _ sound
    split
    · exact Calls.uses_attempts harmless_inner harmless_merge blocks
    · exact trivial
  · exact wp_sound (Calls.uses_block harmless_inner blocks) counts.1

theorem wp_putBack {issue : Issue} {recoveries requeues unblocks : Nat}
    (counts : Counts config requeues unblocks account) (below : unblocks ≤ recoveries)
    (bound : recoveries < config.maxRecoveries) :
    (putBack issue recoveries).wp (contract config) (fun _ => Sound config) account := by
  apply wp_then (wp_unblock counts (Nat.lt_succ_of_le below) bound) (fun _ => id)
  intro unblocked account sound
  apply wp_sound _ sound
  split
  · apply Program.uses_bind (Calls.uses_call harmless_inner rfl)
    intro _
    exact Program.uses_bind (Calls.uses_call harmless_inner rfl) fun _ => trivial
  · exact Program.uses_bind (Calls.uses_call harmless_inner rfl) fun _ => trivial

theorem wp_rescue {issue : Issue} {recoveries requeues unblocks : Nat}
    (counts : Counts config requeues unblocks account) (below : unblocks ≤ recoveries)
    (bound : recoveries < config.maxRecoveries) :
    (rescue issue recoveries).wp (contract config) (fun _ => Sound config) account := by
  apply wp_before (Calls.uses_guarded harmless_inner) counts
  intro reply account counts
  unfold carryOut
  split
  · apply wp_sound _ counts.1
    apply Program.uses_bind (Calls.uses_close harmless_inner)
    intro _
    exact Program.uses_bind (Calls.uses_call harmless_inner rfl) fun _ => trivial
  · exact wp_putBack counts below bound
  · exact wp_putBack counts below bound
  · exact wp_sound (Program.uses_bind (Calls.uses_call harmless_inner rfl) fun _ => trivial) counts.1

theorem wp_recover {issue : Issue} {requeues unblocks : Nat} (counts : Counts config requeues unblocks account)
    (below : ∀ recoveries, issue.recoveries = some recoveries → unblocks ≤ recoveries) :
    (recover config issue).wp (contract config) (fun _ => Sound config) account := by
  have failed : (do
      call (.record "recover_failed")
      pure false : Work Bool).uses (Harmless config) :=
    Program.uses_bind (Calls.uses_call harmless_inner rfl) fun _ => trivial
  unfold recover
  split
  · exact counts.1
  rename_i recoveries read
  split
  · exact wp_sound (Program.uses_bind (Calls.uses_call harmless_inner rfl) fun _ => trivial) counts.1
  rename_i budget
  apply wp_before (Program.uses_invoke.mpr harmless_make) counts
  intro made account counts
  split
  · apply wp_ensured _ (Program.uses_invoke.mpr harmless_retire)
    exact wp_handled (wp_rescue counts (below recoveries read) (not_le.mp budget)) failed
  · exact wp_sound failed counts.1

/-- What is running keeps the account sound at every call, however it is answered. -/
structure Guarded (config : Config) (life : Life) : Prop where
  sound : Sound config life.account
  held : life.running.wp (contract config) (fun _ => Sound config) life.account

theorem guarded_step {action : Action} {life next : Life} (stepped : step config action life = some next)
    (meets : Meets action life) (guarded : Guarded config life) : Guarded config next := by
  obtain ⟨⟨issue,requeues,unblocks⟩,running⟩ := life
  cases action with
  | kill =>
    cases stepped
    exact ⟨guarded.sound,guarded.sound⟩
  | call reaction =>
    cases running with
    | done outcome => contradiction
    | call command rest =>
      cases stepped
      have keeps := meets command rfl
      exact ⟨guarded.held.1 reaction keeps,guarded.held.2 _ _ ⟨reaction,keeps,rfl⟩⟩
  | start operation =>
    cases running with
    | call command rest => contradiction
    | done outcome =>
      simp only [step] at stepped
      split at stepped
      · cases stepped
        have counts : Counts config requeues unblocks ⟨issue,requeues,unblocks⟩ := ⟨guarded.sound,rfl,rfl⟩
        refine ⟨guarded.sound,?_⟩
        cases operation with
        | claim =>
          apply wp_sound _ guarded.sound
          have claims : Harmless config (.edit issue.number [.claimed] [.ready]) := harmless_edit (.inl (by decide))
          exact Program.uses_bind (Calls.uses_claim harmless_inner claims) fun _ => trivial
        | work => exact wp_work counts guarded.sound.revisions
        | recover =>
          apply wp_then (wp_recover counts guarded.sound.recoveries) (fun _ => id)
          exact fun _ _ => id
        | release =>
          apply wp_sound _ guarded.sound
          have releases : Harmless config (.edit issue.number [.ready] [.claimed]) := harmless_edit (.inr (by decide))
          exact Program.uses_bind (Program.uses_invoke.mpr releases) fun _ => trivial
      · contradiction

/-- `requeue` and `unblock` return an issue at most `maxRevisions + maxRecoveries` times, as
long as no agent leaves a body that counts lower than the one it found. -/
theorem requeueing_bounded {number : Nat} {body : Text} {actions : List Action} {life : Life}
    (ran : Machine.run (step config) actions (filed number body) = some life)
    (met : Machine.Along (step config) Meets actions (filed number body)) :
    life.account.requeues + life.account.unblocks ≤ config.maxRevisions + config.maxRecoveries := by
  have sound : Sound config (filed number body).account :=
    ⟨fun _ _ => Nat.zero_le _,fun _ _ => Nat.zero_le _,Nat.zero_le _,Nat.zero_le _⟩
  have guarded := Machine.run_along (fun _ _ _ => guarded_step) ran met ⟨sound,sound⟩
  exact Nat.add_le_add guarded.sound.requeues_le guarded.sound.unblocks_le

/-- Calls that succeed. An agent says the text and may write a body. -/
def answers (count : Nat) (made : Bool) (text : String) (written : Option Text) : List Action :=
  List.replicate count (.call ⟨.succeeds,smooth made text.toList,written⟩)

/-- The critic objects, the resolver rewrites, and the issue goes back to the queue. -/
def rewritten : List Action :=
  .start .claim :: answers 2 true "" none ++ .start .work :: answers 7 true "VERDICT: REVISE" none ++
    answers 10 true "RESOLUTION: REWRITE" (some [])

/-- No worktree can be made, the issue is blocked, and the unblocker returns it. -/
def rescued : List Action :=
  .start .claim :: answers 2 true "" none ++ .start .work :: answers 3 false "" none ++
    .start .recover :: answers 10 true "RECOVERY: REQUEUE" (some [])

theorem requeueing_bounded_once : ∃ life, Machine.run (step .usual) rewritten (filed 7 []) = some life ∧
    life.account.requeues + life.account.unblocks ≤ Config.usual.maxRevisions + Config.usual.maxRecoveries := by
  have ran : (Machine.run (step .usual) rewritten (filed 7 [])).isSome = true := by decide +kernel
  obtain ⟨life,ran⟩ := Option.isSome_iff_exists.mp ran
  exact ⟨life,ran,requeueing_bounded ran (by decide +kernel)⟩

/-- The resolver drops the recoveries and the unblocker the revisions, so that both are counted
anew. -/
theorem requeueing_exceeded : ∃ life,
    Machine.run (step .usual) (rewritten ++ rescued ++ rewritten ++ rescued ++ rewritten) (filed 7 []) = some life ∧
      Config.usual.maxRevisions + Config.usual.maxRecoveries < life.account.requeues + life.account.unblocks := by
  have counted : (Machine.run (step .usual) (rewritten ++ rescued ++ rewritten ++ rescued ++ rewritten)
      (filed 7 [])).map (fun life => (life.account.requeues,life.account.unblocks)) = some (3,2) := by decide +kernel
  obtain ⟨life,ran,same⟩ := Option.map_eq_some_iff.mp counted
  obtain ⟨requeues,unblocks⟩ := Prod.mk.inj same
  refine ⟨life,ran,?_⟩
  rw [requeues,unblocks]
  decide

end Life
end Frankenrust.Orchestrator
