import Frankenrust.Orchestrator.Lanes

/-! Every open issue of the queue carries exactly one state, in every run in which no worker
handles a crash after an edit of its issue's state has taken effect. -/
namespace Frankenrust.Orchestrator

theorem split_at {α : Type} {items : List α} {index : Nat} {item : α} (found : items[index]? = some item) :
    ∃ front back, items = front ++ item :: back ∧ (∀ other, items.set index other = front ++ other :: back) ∧
      items.eraseIdx index = front ++ back := by
  induction items generalizing index with
  | nil => contradiction
  | cons head items ih =>
    cases index with
    | zero =>
      cases found
      exact ⟨[],items,rfl,fun _ => rfl,rfl⟩
    | succ index =>
      obtain ⟨front,back,rfl,set,erase⟩ := ih found
      refine ⟨head :: front,back,rfl,?_,?_⟩
      · exact fun other => congrArg (head :: ·) (set other)
      · exact congrArg (head :: ·) erase

namespace Repository
variable {repository : Repository} {number wanted : Nat} {tokens : List Token}

section File
variable {issue : Issue} {newest : ∀ older ∈ repository.issues, older.number < issue.number}

theorem tidy_file (ready : ∀ label ∈ issue.labels, label.isState = true → label = .ready) (tidy : repository.Tidy) :
    (repository.file issue newest).Tidy := by
  intro wanted found member same opened
  rcases List.mem_cons.mp member with rfl | member
  · intro first one second other firstState secondState
    exact (ready first one firstState).trans (ready second other secondState).symm
  · exact tidy wanted found member same opened

theorem owned_file (owned : repository.Owned tokens) : (repository.file issue newest).Owned tokens := by
  have other {token : Token} (member : token ∈ tokens) : token.1 ≠ issue.number :=
    known_older (owned.carries token member).1 newest
  refine ⟨owned.states,?_,?_⟩
  · intro token member
    have carries := owned.carries token member
    exact ⟨known_file carries.1,shows_file (other member) carries.2⟩
  · intro token opened
    by_cases member : token ∈ tokens
    · exact owned.single token (open_file (other member) opened)
    · rw [List.count_eq_zero.mpr member]
      exact Nat.zero_le 1

theorem queued_file (queued : repository.Queued wanted) : (repository.file issue newest).Queued wanted :=
  ⟨known_file queued.1,shows_file (known_older queued.1 newest) queued.2⟩

end File

section Admit

theorem tidy_enqueue (tidy : repository.Tidy) : (repository.modify number Issue.enqueue).Tidy := by
  intro wanted
  apply shows_modify closing_enqueue _ (fun _ _ => id) (tidy wanted)
  intro _ issue once
  unfold Issue.enqueue
  split
  · exact once
  · rename_i fresh
    have stateless {label : Label} (member : label ∈ issue.labels) (state : label.isState = true) : False :=
      fresh (List.any_eq_true.mpr ⟨label,member,state⟩)
    intro first one second other firstState secondState
    rcases List.mem_cons.mp one with rfl | one
    · rcases List.mem_cons.mp other with rfl | other
      · rfl
      · exact (stateless other secondState).elim
    · exact (stateless one firstState).elim

theorem queued_enqueue (queued : repository.Queued wanted) : (repository.modify number Issue.enqueue).Queued wanted := by
  refine ⟨known_modify.mpr queued.1,?_⟩
  apply shows_modify closing_enqueue _ (fun _ _ => id) queued.2
  intro _ issue some
  rwa [enqueue_queued some]

theorem owned_enqueue (owned : repository.Owned tokens) : (repository.modify number Issue.enqueue).Owned tokens := by
  refine ⟨owned.states,?_,?_⟩
  · intro token member
    have carries := owned.carries token member
    refine ⟨known_modify.mpr carries.1,?_⟩
    apply shows_modify closing_enqueue _ (fun _ _ => id) carries.2
    intro _ issue only
    have state := owned.states token member
    rwa [enqueue_queued ⟨token.2,(only token.2 state).mpr rfl,state⟩]
  · intro token opened
    exact owned.single token (open_modify closing_enqueue opened)

end Admit

end Repository

/-- The tokens of the run lane at each point. -/
def RunLane.Holds : RunLane → List Token → Prop
  | .stopped, own | .polling, own => own = []
  | .starting running, own => running.wp (contract (some .claimed)) (fun _ _ => True) own ∧ Allowed (some .claimed) own
  | .claiming running, own => running.wp (contract (some .ready)) Queue.Batch own ∧ Allowed (some .ready) own

namespace Queue
open Loop
variable {config : Config} {queue next : Queue}

/-- No worker enters the handler of a crash after an edit of its issue's state took effect. -/
def Meets : Action → Queue → Prop
  | .work index _, queue => ∀ worker ∈ queue.inflight[index]?,
      worker.running.pending = some (.record "work_crash") → worker.edited = false
  | _, _ => True

instance : (action : Action) → (queue : Queue) → Decidable (Meets action queue)
  | .work index _, queue => inferInstanceAs (Decidable (∀ worker ∈ queue.inflight[index]?,
      worker.running.pending = some (.record "work_crash") → worker.edited = false))
  | .file _, _ | .enqueue _, _ | .touch _ _, _ | .start, _ | .poll, _ | .runCall _, _ | .settle, _ => .isTrue trivial
  | .leave, _ | .kill, _ | .reap _, _ | .pass, _ | .unblockCall _, _ | .killUnblock, _ => .isTrue trivial

structure Sound (queue : Queue) (run unblock : List Token) : Prop where
  tidy : queue.repository.Tidy
  owned : queue.repository.Owned (run ++ (queue.inflight.flatMap Worker.tokens ++ unblock))
  workers : ∀ worker ∈ queue.inflight, worker.running.wp (contract none) (fun _ _ => True) worker.tokens
  runLane : queue.runLane.Holds run
  alone : ∀ running, queue.runLane = .starting running → queue.inflight = []
  unblockLane : queue.unblockLane.wp (contract (some .blocked)) (fun _ _ => True) unblock
  blocked : Allowed (some .blocked) unblock

def Consistent (queue : Queue) : Prop := ∃ run unblock, Sound queue run unblock

/-- The queue is sound, and what was in it is still in it. -/
def Advances (queue next : Queue) : Prop :=
  Consistent next ∧ ∀ number, queue.repository.Queued number → next.repository.Queued number

theorem allowed_worker (worker : Worker) : Allowed none worker.tokens := by
  intro token member
  unfold Worker.tokens at member
  split at member
  · contradiction
  · cases List.mem_singleton.mp member
    exact .inl ⟨rfl,nofun⟩

theorem worker_claimed {workers : List Worker} {token : Token} (member : token ∈ workers.flatMap Worker.tokens) :
    token.2 = .claimed := by
  obtain ⟨worker,_,inside⟩ := List.mem_flatMap.mp member
  rcases allowed_worker worker token inside with ⟨claimed,_⟩ | other
  · exact claimed
  · contradiction

theorem unblock_blocked {unblock : List Token} (blocked : Allowed (some .blocked) unblock) {token : Token}
    (member : token ∈ unblock) : token.2 = .blocked := by
  rcases blocked token member with ⟨_,other⟩ | same
  · exact absurd rfl other
  · exact Option.some.inj same

theorem run_unblocked {run : List Token} {lane : RunLane} (holds : lane.Holds run) {token : Token}
    (member : token ∈ run) : token.2 = .claimed ∨ token.2 = .ready := by
  match lane,holds with
  | .stopped,rfl | .polling,rfl => contradiction
  | .starting _,⟨_,allowed⟩ =>
    rcases allowed token member with ⟨claimed,_⟩ | same
    · exact .inl claimed
    · exact .inl (Option.some.inj same)
  | .claiming _,⟨_,allowed⟩ =>
    rcases allowed token member with ⟨claimed,_⟩ | same
    · exact .inl claimed
    · exact .inr (Option.some.inj same)

section Steps
variable {run unblock : List Token}

/-- A change of the repository that is no call of a lane. -/
theorem sound_changed {repository : Repository} (sound : Sound queue run unblock) (tidy : repository.Tidy)
    (owned : repository.Owned (run ++ (queue.inflight.flatMap Worker.tokens ++ unblock))) :
    Sound { queue with repository } run unblock :=
  ⟨tidy,owned,sound.workers,sound.runLane,sound.alone,sound.unblockLane,sound.blocked⟩

theorem file_advances {issue : Issue} (stepped : queue.file issue = some next) (sound : Sound queue run unblock) :
    Advances queue next := by
  unfold Queue.file at stepped
  split at stepped
  · split at stepped
    · rename_i newest ready
      cases stepped
      have entered (number : Nat) (queued : queue.repository.Queued number) :
          (queue.repository.file issue newest).Queued number := Repository.queued_file queued
      exact ⟨⟨run,unblock,sound_changed sound (Repository.tidy_file ready sound.tidy) (Repository.owned_file sound.owned)⟩,
        entered⟩
    · contradiction
  · contradiction

theorem runCall_advances {reaction : Reaction} (stepped : queue.runCall reaction = some next)
    (sound : Sound queue run unblock) : Advances queue next := by
  obtain ⟨repository,lane,inflight,unblockLane⟩ := queue
  match lane with
  | .stopped | .polling | .starting (.done _) | .claiming (.done _) => contradiction
  | .starting (.call command rest) =>
    cases stepped
    obtain ⟨held,allowed⟩ := sound.runLane
    have apart : ∀ token ∈ inflight.flatMap Worker.tokens ++ unblock, some token.2 ≠ some Label.claimed := by
      intro token member same
      rw [show inflight = [] from sound.alone _ rfl] at member
      cases (unblock_blocked sound.blocked member).symm.trans (Option.some.inj same)
    obtain ⟨kept,safe⟩ := Repository.call_kept reaction sound.tidy sound.owned allowed (by simp [Label.isState]) apart
      (by simp) held
    exact ⟨⟨_,unblock,kept.tidy,kept.owned,sound.workers,⟨safe,kept.allowed⟩,fun _ _ => sound.alone _ rfl,
      sound.unblockLane,sound.blocked⟩,kept.queued⟩
  | .claiming (.call command rest) =>
    cases stepped
    obtain ⟨held,allowed⟩ := sound.runLane
    have apart : ∀ token ∈ inflight.flatMap Worker.tokens ++ unblock, some token.2 ≠ some Label.ready := by
      intro token member same
      rcases List.mem_append.mp member with member | member
      · cases (worker_claimed member).symm.trans (Option.some.inj same)
      · cases (unblock_blocked sound.blocked member).symm.trans (Option.some.inj same)
    obtain ⟨kept,safe⟩ := Repository.call_kept reaction sound.tidy sound.owned allowed (by simp [Label.isState]) apart
      (by simp) held
    exact ⟨⟨_,unblock,kept.tidy,kept.owned,sound.workers,⟨safe,kept.allowed⟩,by simp,
      sound.unblockLane,sound.blocked⟩,kept.queued⟩

theorem settle_advances (stepped : queue.settle config = some next) (sound : Sound queue run unblock) :
    Advances queue next := by
  obtain ⟨repository,lane,inflight,unblockLane⟩ := queue
  have dropped : repository.Owned ([] ++ (inflight.flatMap Worker.tokens ++ unblock)) := by
    apply Repository.owned_fewer _ sound.owned
    intro token
    simp
  match lane with
  | .stopped | .polling | .starting (.call _ _) | .claiming (.call _ _) => contradiction
  | .starting (.done none) | .starting (.done (some _)) | .claiming (.done none) =>
    cases stepped
    exact ⟨⟨[],unblock,sound.tidy,dropped,sound.workers,rfl,nofun,sound.unblockLane,sound.blocked⟩,fun _ => id⟩
  | .claiming (.done (some batch)) =>
    cases stepped
    obtain ⟨distinct,held⟩ := sound.runLane.1 batch rfl
    have tokens : (batch.map (submit config)).flatMap Worker.tokens = batch.map fun issue => (issue.number,.claimed) := by
      rw [List.flatMap_map]
      exact List.flatMap_pure_eq_map _ batch
    have once : (batch.map fun issue => (issue.number,Label.claimed)).Nodup := by
      apply List.Nodup.of_map Prod.fst
      rwa [List.map_map]
    have among : (batch.map fun issue => (issue.number,Label.claimed)) ⊆ run := by
      intro token member
      obtain ⟨issue,inside,rfl⟩ := List.mem_map.mp member
      exact held issue inside
    refine ⟨⟨[],unblock,sound.tidy,?_,?_,rfl,nofun,sound.unblockLane,sound.blocked⟩,fun _ => id⟩
    · apply Repository.owned_fewer _ sound.owned
      intro token
      have fewer := (List.subperm_of_subset once among).count_le token
      simp only [List.flatMap_append,List.count_append,List.count_nil,tokens]
      omega
    · intro worker member
      rcases List.mem_append.mp member with member | member
      · exact sound.workers worker member
      · obtain ⟨issue,_,rfl⟩ := List.mem_map.mp member
        exact wp_work

theorem follow_tokens {reaction : Reaction} {repository : Repository} {issue : Issue} {command : Command}
    {running : Work Unit} {edited : Bool} (later : Work Unit) (guard : (contract none).guard command (Worker.tokens ⟨issue,running,edited⟩)) :
    follow none reaction repository (Worker.tokens ⟨issue,running,edited⟩) command =
      Worker.tokens ⟨issue,later,edited || moves reaction command⟩ := by
  have unmoved (still : moves reaction command = false) :
      Worker.tokens ⟨issue,running,edited⟩ = Worker.tokens ⟨issue,later,edited || moves reaction command⟩ := by
    simp [Worker.tokens,still]
  cases command with
  | issueList label state =>
    rw [← unmoved rfl]
    simp only [follow]
    split
    · unfold learn
      split
      · exact if_neg (by simp)
      · rfl
    · rfl
  | edit number add remove =>
    simp only [follow]
    split
    · rename_i applies
      by_cases changes : (add ++ remove).any Label.isState = true
      · have moved : moves reaction (.edit number add remove) = true := by simp [moves,applies,changes]
        rcases guard with stateless | ⟨old,new,held,_,_,claims⟩
        · obtain ⟨label,member,state⟩ := List.any_eq_true.mp changes
          rw [stateless label member] at state
          contradiction
        have away : Label.claimed ∉ add := by
          intro added
          cases claims added
        rw [moved]
        cases edited with
        | true => contradiction
        | false =>
          cases List.mem_singleton.mp held
          simp [advance,Worker.tokens,changes,away]
      · rw [← unmoved (by simp [moves,Bool.eq_false_iff.mpr changes])]
        exact if_neg changes
    · rename_i ignored
      exact unmoved (by simp [moves,Bool.eq_false_iff.mpr ignored])
  | _ => exact unmoved rfl

theorem work_advances {index : Nat} {reaction : Reaction} (stepped : queue.work index reaction = some next)
    (meets : Meets (.work index reaction) queue) (sound : Sound queue run unblock) : Advances queue next := by
  obtain ⟨repository,lane,inflight,unblockLane⟩ := queue
  unfold Queue.work at stepped
  split at stepped
  · rename_i issue command rest edited found
    cases stepped
    obtain ⟨front,back,rfl,set,_⟩ := split_at found
    have member : ⟨issue,.call command rest,edited⟩ ∈ front ++ ⟨issue,.call command rest,edited⟩ :: back := by simp
    have owned : repository.Owned (Worker.tokens ⟨issue,.call command rest,edited⟩ ++
        (run ++ (front ++ back).flatMap Worker.tokens ++ unblock)) := by
      apply Repository.owned_fewer _ sound.owned
      intro token
      simp only [List.flatMap_append,List.flatMap_cons,List.count_append]
      omega
    have crash (_ : (none : Option Label) = none) (crashes : command = .record "work_crash") :
        Worker.tokens ⟨issue,.call command rest,edited⟩ ≠ [] := by
      have unedited : edited = false := meets _ found (congrArg some crashes)
      simp [Worker.tokens,unedited]
    obtain ⟨kept,safe⟩ := Repository.call_kept reaction sound.tidy owned (allowed_worker _) nofun nofun crash
      (sound.workers _ member)
    rw [follow_tokens (rest (respond reaction repository command).1) (sound.workers _ member).1] at kept safe
    have held : (respond reaction repository command).2.Owned (run ++ ((front ++
        ⟨issue,rest (respond reaction repository command).1,edited || moves reaction command⟩ :: back).flatMap
          Worker.tokens ++ unblock)) := by
      apply Repository.owned_fewer _ kept.owned
      intro token
      simp only [List.flatMap_append,List.flatMap_cons,List.count_append]
      omega
    rw [set]
    refine ⟨⟨run,unblock,kept.tidy,held,?_,sound.runLane,?_,sound.unblockLane,sound.blocked⟩,kept.queued⟩
    · intro worker inside
      rcases List.mem_append.mp inside with inside | inside
      · exact sound.workers worker (List.mem_append_left _ inside)
      · rcases List.mem_cons.mp inside with rfl | inside
        · exact safe
        · exact sound.workers worker (List.mem_append_right _ (List.mem_cons_of_mem _ inside))
    · intro running starting
      have none := sound.alone running starting
      simp at none
  · contradiction

theorem unblockCall_advances {reaction : Reaction} (stepped : queue.unblockCall reaction = some next)
    (sound : Sound queue run unblock) : Advances queue next := by
  obtain ⟨repository,lane,inflight,unblockLane⟩ := queue
  cases unblockLane with
  | done outcome => contradiction
  | call command rest =>
    cases stepped
    have owned : repository.Owned (unblock ++ (run ++ inflight.flatMap Worker.tokens)) := by
      apply Repository.owned_fewer _ sound.owned
      intro token
      simp only [List.count_append]
      omega
    have apart : ∀ token ∈ run ++ inflight.flatMap Worker.tokens, some token.2 ≠ some Label.blocked := by
      intro token member same
      rcases List.mem_append.mp member with member | member
      · rcases run_unblocked sound.runLane member with claimed | ready
        · cases claimed.symm.trans (Option.some.inj same)
        · cases ready.symm.trans (Option.some.inj same)
      · cases (worker_claimed member).symm.trans (Option.some.inj same)
    obtain ⟨kept,safe⟩ := Repository.call_kept reaction sound.tidy owned sound.blocked (by simp [Label.isState]) apart
      nofun sound.unblockLane
    refine ⟨⟨run,_,kept.tidy,?_,sound.workers,sound.runLane,sound.alone,safe,kept.allowed⟩,kept.queued⟩
    apply Repository.owned_fewer _ kept.owned
    intro token
    simp only [List.count_append]
    omega

theorem reap_advances {index : Nat} (stepped : queue.reap index = some next)
    (sound : Sound queue run unblock) : Advances queue next := by
  obtain ⟨repository,lane,inflight,unblockLane⟩ := queue
  have reaped {worker : Worker} (found : inflight[index]? = some worker) :
      Advances ⟨repository,lane,inflight,unblockLane⟩ ⟨repository,lane,inflight.eraseIdx index,unblockLane⟩ := by
    obtain ⟨front,back,rfl,_,erased⟩ := split_at found
    rw [erased]
    refine ⟨⟨run,unblock,sound.tidy,?_,?_,sound.runLane,?_,sound.unblockLane,sound.blocked⟩,fun _ => id⟩
    · apply Repository.owned_fewer _ sound.owned
      intro token
      simp only [List.flatMap_append,List.flatMap_cons,List.count_append]
      omega
    · intro other member
      apply sound.workers other
      simp only [List.mem_append,List.mem_cons] at member ⊢
      tauto
    · intro running starting
      have none := sound.alone running starting
      simp at none
  unfold Queue.reap at stepped
  split at stepped
  · rename_i found
    cases stepped
    exact reaped found
  · rename_i found
    cases stepped
    exact reaped found
  · contradiction

end Steps

theorem step_advances {action : Action} (stepped : step config action queue = some next) (meets : Meets action queue)
    (consistent : Consistent queue) : Advances queue next := by
  obtain ⟨run,unblock,sound⟩ := consistent
  cases action with
  | file issue => exact file_advances stepped sound
  | enqueue number =>
    cases stepped
    exact ⟨⟨run,unblock,sound_changed sound (Repository.tidy_enqueue sound.tidy) (Repository.owned_enqueue sound.owned)⟩,
      fun _ => Repository.queued_enqueue⟩
  | touch number touch =>
    simp only [step] at stepped
    split at stepped
    · rename_i stateless
      cases stepped
      have calm := Repository.calm_touch stateless
      exact ⟨⟨run,unblock,sound_changed sound (Repository.tidy_calm calm sound.tidy)
        (Repository.owned_calm calm sound.owned)⟩,fun _ => Repository.queued_calm calm⟩
    · contradiction
  | runCall reaction => exact runCall_advances stepped sound
  | settle => exact settle_advances stepped sound
  | work index reaction => exact work_advances stepped meets sound
  | reap index => exact reap_advances stepped sound
  | unblockCall reaction => exact unblockCall_advances stepped sound
  | start =>
    obtain ⟨repository,lane,inflight,unblockLane⟩ := queue
    match lane,inflight with
    | .stopped,[] =>
      cases stepped
      cases sound.runLane
      exact ⟨⟨[],unblock,sound.tidy,sound.owned,sound.workers,⟨wp_reclaim,nofun⟩,fun _ _ => rfl,sound.unblockLane,
        sound.blocked⟩,fun _ => id⟩
    | .stopped,_ :: _ | .starting _,_ | .polling,_ | .claiming _,_ => contradiction
  | poll =>
    obtain ⟨repository,lane,inflight,unblockLane⟩ := queue
    cases lane with
    | polling =>
      cases stepped
      cases sound.runLane
      exact ⟨⟨[],unblock,sound.tidy,sound.owned,sound.workers,⟨wp_claimBatch,nofun⟩,nofun,sound.unblockLane,
        sound.blocked⟩,fun _ => id⟩
    | _ => contradiction
  | leave =>
    obtain ⟨repository,lane,inflight,unblockLane⟩ := queue
    cases lane with
    | polling =>
      cases stepped
      exact ⟨⟨run,unblock,sound.tidy,sound.owned,sound.workers,sound.runLane,nofun,sound.unblockLane,sound.blocked⟩,
        fun _ => id⟩
    | _ => contradiction
  | kill =>
    cases stepped
    refine ⟨⟨[],unblock,sound.tidy,?_,nofun,rfl,nofun,sound.unblockLane,sound.blocked⟩,fun _ => id⟩
    apply Repository.owned_fewer _ sound.owned
    intro token
    simp
    omega
  | pass =>
    obtain ⟨repository,lane,inflight,unblockLane⟩ := queue
    cases unblockLane with
    | call _ _ => contradiction
    | done outcome =>
      cases stepped
      refine ⟨⟨run,[],sound.tidy,?_,sound.workers,sound.runLane,sound.alone,wp_unblockPass,nofun⟩,fun _ => id⟩
      apply Repository.owned_fewer _ sound.owned
      intro token
      simp
  | killUnblock =>
    cases stepped
    refine ⟨⟨run,[],sound.tidy,?_,sound.workers,sound.runLane,sound.alone,trivial,nofun⟩,fun _ => id⟩
    apply Repository.owned_fewer _ sound.owned
    intro token
    simp

def Retains (number : Nat) (queue : Queue) : Prop := Consistent queue ∧ queue.repository.Queued number

/-- An issue that has entered the queue carries exactly one state as long as it is open. -/
theorem labels_exclusive {actions more : List Action} {earlier : Queue} {issue : Issue}
    (ran : Machine.run (step config) actions empty = some earlier)
    (later : Machine.run (step config) more earlier = some queue)
    (met : Machine.Along (step config) Meets (actions ++ more) empty)
    (entered : ∃ old ∈ earlier.repository.issues, old.number = issue.number ∧ ∃ label ∈ old.labels, label.isState = true)
    (member : issue ∈ queue.repository.issues) (opened : issue.state = .opened) :
    ∃! label, label.isState = true ∧ label ∈ issue.labels := by
  obtain ⟨before,after⟩ := Machine.along_append ran met
  have start : Consistent empty := ⟨[],[],nofun,⟨nofun,nofun,nofun⟩,nofun,rfl,nofun,trivial,nofun⟩
  have consistent : Consistent earlier := by
    refine Machine.run_along (fun _ _ _ stepped meets consistent => ?_) ran before start
    exact (step_advances stepped meets consistent).1
  obtain ⟨old,inside,same,label,within,state⟩ := entered
  have queued : earlier.repository.Queued issue.number := by
    refine ⟨⟨old,inside,same⟩,?_⟩
    intro found also equal _
    cases Repository.number_unique inside also (same.trans equal.symm)
    exact ⟨label,within,state⟩
  have retained : Retains issue.number earlier := ⟨consistent,queued⟩
  have kept : Retains issue.number queue := by
    refine Machine.run_along (fun _ _ _ stepped meets held => ?_) later after retained
    have advances := step_advances stepped meets held.1
    exact ⟨advances.1,advances.2 _ held.2⟩
  obtain ⟨⟨run,unblock,sound⟩,_,shows⟩ := kept
  obtain ⟨carried,inIssue,isState⟩ := shows issue member rfl opened
  refine ⟨carried,⟨isState,inIssue⟩,?_⟩
  rintro other ⟨otherState,inside⟩
  exact sound.tidy issue.number issue member rfl opened other inside carried inIssue otherState isState

/-- A call that raises and changes nothing. -/
def raising : Reaction := ⟨.raises false,fun _ => none⟩

/-- The comment on the requeue raises, and the handler of the crash blocks the issue. -/
def crashing : List Action := .work 0 raising :: List.replicate 4 (.work 0 (fine ""))

theorem labels_exclusive_requeued : ∃ earlier queue issue, Machine.run (step .usual) filing empty = some earlier ∧
    Machine.run (step .usual) (claiming ++ requeuing) earlier = some queue ∧ issue ∈ queue.repository.issues ∧
      ∃! label, label.isState = true ∧ label ∈ issue.labels := by
  have filed : (Machine.run (step .usual) filing empty).map (·.repository.issues) = some [⟨7,[],[.ready],.opened⟩] := by
    decide +kernel
  obtain ⟨earlier,ran,entered⟩ := Option.map_eq_some_iff.mp filed
  have requeued : ((Machine.run (step .usual) filing empty).bind (Machine.run (step .usual) (claiming ++ requeuing))).map
      (fun queue => queue.repository.issues.map fun issue => (issue.number,issue.state)) = some [(7,.opened)] := by
    decide +kernel
  rw [ran,Option.bind_some] at requeued
  obtain ⟨queue,later,issues⟩ := Option.map_eq_some_iff.mp requeued
  obtain ⟨issue,listed⟩ := List.map_eq_singleton_iff.mp issues
  obtain ⟨number,opened⟩ := Prod.mk.inj listed.2
  have member : issue ∈ queue.repository.issues := by simp [listed.1]
  have found : ∃ old ∈ earlier.repository.issues, old.number = issue.number ∧
      ∃ label ∈ old.labels, label.isState = true :=
    ⟨⟨7,[],[.ready],.opened⟩,by simp [entered],number.symm,.ready,by simp,rfl⟩
  exact ⟨earlier,queue,issue,ran,later,member,labels_exclusive ran later (by decide +kernel) found member opened⟩

/-- A comment that raises after the requeue. -/
theorem labels_doubled : ∃ queue issue,
    Machine.run (step .usual) (filing ++ claiming ++ requeuing ++ crashing) empty = some queue ∧
      issue ∈ queue.repository.issues ∧ issue.state = .opened ∧ Label.ready ∈ issue.labels ∧
      Label.blocked ∈ issue.labels := by
  have ends : (Machine.run (step .usual) (filing ++ claiming ++ requeuing ++ crashing) empty).map
      (fun queue => queue.repository.issues.map fun issue => (issue.state,issue.labels)) =
        some [(.opened,[.ready,.blocked])] := by decide +kernel
  obtain ⟨queue,ran,issues⟩ := Option.map_eq_some_iff.mp ends
  obtain ⟨issue,listed⟩ := List.map_eq_singleton_iff.mp issues
  obtain ⟨state,labels⟩ := Prod.mk.inj listed.2
  refine ⟨queue,issue,ran,?_,state,?_,?_⟩
  · simp [listed.1]
  · simp [labels]
  · simp [labels]

end Queue
end Frankenrust.Orchestrator
