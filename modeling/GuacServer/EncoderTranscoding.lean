import GuacServer.StateRuns

/-!
# Transcoding at the end of a job

The worker of a job starts ffmpeg as a child process and waits for a child to end, though not
for this one: the child that is reaped may be that of another worker. Then it removes the
temporary file that ffmpeg reads, and destroys the job. A child that cannot become ffmpeg
returns from job_exec as the worker does, and removes the file as well.
-/

namespace GuacServer.EncoderTranscoding

open List StateRuns

/-- What a worker does next. -/
inductive Stage
  /-- job_call_ffmpeg_for_video. -/
  | ffmpeg
  /-- wait. -/
  | wait
  /-- The temporary file is deleted. -/
  | delete
  /-- job_destroy. -/
  | destroy
  /-- The job has been freed. -/
  | ended
  deriving DecidableEq

/-- A child process. -/
inductive Child
  /-- execvp has not been called. -/
  | forked
  /-- ffmpeg. -/
  | running
  /-- execvp has failed, and job_exec has returned in the child. -/
  | returned
  /-- The child has deleted the temporary file and destroys its own copy of the job. -/
  | destroys
  | terminated
  | reaped
  deriving DecidableEq

/-- A child process that has not ended. -/
def Child.alive : Child→Bool
  | .terminated | .reaped => false
  | _ => true

/-- A job with its worker, the ffmpeg that this has started, and its files. -/
structure Transcoding where
  /-- The stage of the worker. -/
  stage : Stage
  /-- The child, if there is one. -/
  child : Option Child
  /-- The size of the temporary file, if it exists. -/
  tmpfile : Option ℕ
  /-- Whether the output file exists. -/
  outfile : Bool
  deriving DecidableEq

/-- There is a child that has not ended. -/
def Transcoding.alive (job : Transcoding) : Bool := job.child.any Child.alive

/-- Steps of the workers and of their children. -/
inductive Event
  /-- The handler of a new job has returned. -/
  | start (tmpfile : Option ℕ) (outfile : Bool)
  /-- A worker runs job_call_ffmpeg_for_video until it waits or is to delete the file; fork may
  fail. -/
  | call (id : ℕ) (forks : Bool)
  /-- The child of a worker calls execvp, which may fail. -/
  | exec (id : ℕ) (succeeds : Bool)
  /-- The child of a worker deletes the temporary file. -/
  | childDeletes (id : ℕ)
  /-- The child of a worker ends. -/
  | exit (id : ℕ)
  /-- wait returns to a worker, with the child of some worker or because there are none. -/
  | wait (id : ℕ) (reaped : Option ℕ)
  /-- A worker deletes the temporary file. -/
  | delete (id : ℕ)
  /-- A worker destroys its job. -/
  | destroy (id : ℕ)
  deriving DecidableEq

/-- job_exec up to wait. -/
def Transcoding.jobExec (forks : Bool) (job : Transcoding) : Transcoding :=
  if forks then { job with stage := .wait, child := some .forked }
  else { job with stage := .delete }

/-- job_call_ffmpeg_for_video up to wait, or up to the deletion. -/
def Transcoding.callFfmpegForVideo (forks : Bool) (job : Transcoding) : Transcoding :=
  match job.tmpfile with
  | none => { job with stage := .destroy }
  | some size =>
    if size > 0 then { job with outfile := false }.jobExec forks
    else { job with stage := .delete }

/-- A job in some stage changes. -/
def change (id : ℕ) (p : Transcoding→Bool) (f : Transcoding→Transcoding)
    (jobs : List Transcoding) : Option (List Transcoding) := do
  let job ← jobs[id]?
  if p job then some (jobs.set id (f job)) else none

/-- A child that has not been reaped. -/
def Transcoding.HasChild (job : Transcoding) : Prop := job.alive=true ∨ job.child=some .terminated

instance : DecidablePred Transcoding.HasChild := fun _ => inferInstanceAs (Decidable (_ ∨ _))

/-- wait, which returns with a child that has terminated, or without if there are none. -/
def reap : Option ℕ→List Transcoding→Option (List Transcoding)
  | some pid, jobs => change pid (fun job => job.child=some .terminated)
    (fun job => { job with child := some .reaped }) jobs
  | none, jobs => if ∃ job∈jobs, job.HasChild then none else some jobs

/-- One step. -/
def transcodingStep : Event→List Transcoding→Option (List Transcoding)
  | .start tmpfile outfile, jobs => some (jobs++[⟨.ffmpeg,none,tmpfile,outfile⟩])
  | .call id forks, jobs =>
    change id (fun job => job.stage=.ffmpeg) (fun job => job.callFfmpegForVideo forks) jobs
  | .exec id succeeds, jobs => change id (fun job => job.child=some .forked)
    (fun job => { job with child := some (if succeeds then .running else .returned) }) jobs
  | .childDeletes id, jobs => change id (fun job => job.child=some .returned)
    (fun job => { job with child := some .destroys, tmpfile := none }) jobs
  | .exit id, jobs => change id Transcoding.alive
    (fun job => { job with child := some .terminated }) jobs
  | .wait id reaped, jobs => do
    let jobs ← reap reaped jobs
    change id (fun job => job.stage=.wait) (fun job => { job with stage := .delete }) jobs
  | .delete id, jobs => change id (fun job => job.stage=.delete)
    (fun job => { job with stage := .destroy, tmpfile := none }) jobs
  | .destroy id, jobs => change id (fun job => job.stage=.destroy)
    (fun job => { job with stage := .ended }) jobs

/-- The child of a worker has ended. -/
def Transcoding.Over (job : Transcoding) : Prop :=
  job.child=some .terminated ∨ job.child=some .reaped

instance : DecidablePred Transcoding.Over := fun _ => inferInstanceAs (Decidable (_ ∨ _))

/-- No worker has deleted the temporary file before its own child had ended, nor has this child
itself, and each worker that waits although its own child has ended is released by some
child. -/
structure Isolated (jobs : List Transcoding) : Prop where
  /-- Files are there as long as the child may read them. -/
  keeps : ∀ job∈jobs, job.alive=true → job.tmpfile≠none
  /-- Workers go on later. -/
  deletes : ∀ job∈jobs, job.stage=.destroy ∨ job.stage=.ended → job.alive=false
  /-- Workers are released. -/
  releases : ∀ id job, jobs[id]? = some job → job.stage=.wait → job.Over →
    ∃ reaped, (transcodingStep (.wait id reaped) jobs).isSome

/-- Children do not overlap: none is started while one that has ended is still to be reaped,
and none ends while another one has not; and each of them becomes ffmpeg. -/
def Event.Apart : Event→List Transcoding→Prop
  | .call _ forks, jobs => forks=true→∀ job∈jobs, job.child≠some .terminated
  | .exec _ succeeds, _ => succeeds=true
  | .exit id, jobs => ∀ job∈jobs.eraseIdx id, job.alive=false
  | _, _ => True

instance : (event : Event)→(jobs : List Transcoding)→Decidable (event.Apart jobs)
  | .call _ forks, jobs => inferInstanceAs (Decidable (forks=true→∀ job∈jobs, _))
  | .exec _ succeeds, _ => inferInstanceAs (Decidable (succeeds=true))
  | .exit id, jobs => inferInstanceAs (Decidable (∀ job∈jobs.eraseIdx id, _))
  | .start _ _, _ => inferInstanceAs (Decidable True)
  | .childDeletes _, _ => inferInstanceAs (Decidable True)
  | .wait _ _, _ => inferInstanceAs (Decidable True)
  | .delete _, _ => inferInstanceAs (Decidable True)
  | .destroy _, _ => inferInstanceAs (Decidable True)

/-- A worker could go on, as its own child has ended. -/
def Transcoding.due (job : Transcoding) : Bool := decide (job.stage=.wait ∧ job.Over)

/-- A child waits to be reaped. -/
def Transcoding.zombie (job : Transcoding) : Bool := decide (job.child=some .terminated)

/-- A worker has a child from when it waits, which is ffmpeg with its file, and goes on after
the child has ended. -/
structure Transcoding.Consistent (job : Transcoding) : Prop where
  /-- There is no child yet. -/
  called : job.stage=.ffmpeg → job.child=none
  /-- There is a child. -/
  waits : job.stage=.wait → job.child≠none
  /-- The worker has not gone on. -/
  later : job.alive=true → job.stage=.wait
  /-- The file is there. -/
  kept : job.alive=true → job.tmpfile≠none
  /-- execvp has not failed. -/
  execs : job.child≠some .returned

/-- While a child is to be reaped none is alive. -/
def Apart (jobs : List Transcoding) : Prop :=
  ∀ job∈jobs, job.child=some .terminated→∀ other∈jobs, other.alive=false

/-- As many children are to be reaped as there are workers that could go on, and none is alive
while there are any. -/
structure Balanced (jobs : List Transcoding) : Prop where
  /-- Each job is consistent. -/
  consistent : ∀ job∈jobs, job.Consistent
  /-- The numbers agree. -/
  balance : jobs.countP Transcoding.due=jobs.countP Transcoding.zombie
  /-- Children do not overlap. -/
  apart : Apart jobs

variable {jobs jobs' : List Transcoding} {id : ℕ} {job new : Transcoding}

/-- A job that changes is in the stage for it. -/
theorem change_eq_some_iff {p : Transcoding→Bool} {f : Transcoding→Transcoding} :
    change id p f jobs=some jobs' ↔
      ∃ job, jobs[id]? = some job ∧ p job=true ∧ jobs' = jobs.set id (f job) := by
  simp only [change,Option.bind_eq_bind,Option.bind_eq_some_iff,Option.ite_none_right_eq_some,
    Option.some.injEq,@eq_comm _ jobs']

/-- A job counts as it is after its change instead of as it was. -/
theorem countP_set_add (p : Transcoding→Bool) (hjob : jobs[id]? = some job) (new : Transcoding) :
    (jobs.set id new).countP p+(if p job then 1 else 0)=jobs.countP p+(if p new then 1 else 0) := by
  obtain ⟨hid,rfl⟩ := List.getElem?_eq_some_iff.mp hjob
  have hle := boole_getElem_le_countP (p := p) hid
  rw [countP_set hid]
  omega

theorem consistent_set (h : ∀ job∈jobs, job.Consistent) (hnew : new.Consistent) :
    ∀ job∈jobs.set id new, job.Consistent := by
  intro job hjob
  rcases mem_or_eq_of_mem_set hjob with hmem | rfl
  · exact h job hmem
  · exact hnew

/-- A job whose child is not alive is consistent if it has one exactly from when it waits. -/
theorem consistent_of_not_alive (hcalled : job.stage=.ffmpeg → job.child=none)
    (hwaits : job.stage=.wait → job.child≠none) (halive : job.alive=false) :
    job.Consistent := by
  have hnot : job.alive≠true := by rw [halive]; exact Bool.false_ne_true
  refine ⟨hcalled,hwaits,fun h => absurd h hnot,fun h => absurd h hnot,fun h => hnot ?_⟩
  rw [Transcoding.alive,h]
  rfl

/-- Children do not overlap after a job has changed that has not got one nor lost one. -/
theorem Apart.set (h : Apart jobs) (hjob : jobs[id]? = some job)
    (hzombie : new.child=some .terminated → job.child=some .terminated)
    (halive : new.alive=true → job.alive=true) : Apart (jobs.set id new) := by
  have hmem := mem_of_getElem? hjob
  intro dead hdead hterminated other hother
  have hbefore : ∃ dead' ∈ jobs, dead'.child=some .terminated := by
    rcases mem_or_eq_of_mem_set hdead with hdead | rfl
    · exact ⟨dead,hdead,hterminated⟩
    · exact ⟨job,hmem,hzombie hterminated⟩
  obtain ⟨dead',hdead',hterminated'⟩ := hbefore
  rcases mem_or_eq_of_mem_set hother with hother | rfl
  · exact h dead' hdead' hterminated' other hother
  · exact Bool.eq_false_iff.mpr fun hnew =>
      Bool.eq_false_iff.mp (h dead' hdead' hterminated' job hmem) (halive hnew)

/-- A job that changes without counting otherwise. -/
theorem Balanced.set (h : Balanced jobs) (hjob : jobs[id]? = some job) (hnew : new.Consistent)
    (hsame : (if new.due then 1 else 0)+(if job.zombie then 1 else 0)=
      (if job.due then 1 else 0)+(if new.zombie then 1 else 0))
    (hapart : Apart (jobs.set id new)) : Balanced (jobs.set id new) := by
  refine ⟨consistent_set h.consistent hnew,?_,hapart⟩
  have hdue := countP_set_add Transcoding.due hjob new
  have hzombie := countP_set_add Transcoding.zombie hjob new
  have hbalance := h.balance
  omega

/-- What job_call_ffmpeg_for_video makes of a job without a child. -/
theorem callFfmpegForVideo_consistent (forks : Bool) (hnone : job.child=none) :
    (job.callFfmpegForVideo forks).Consistent ∧ (job.callFfmpegForVideo forks).due=false ∧
      (job.callFfmpegForVideo forks).zombie=false ∧
      ((job.callFfmpegForVideo forks).alive=true → forks=true) := by
  have hkept : ∀ stage outfile, stage≠.wait →
      (⟨stage,job.child,job.tmpfile,outfile⟩ : Transcoding).Consistent := fun stage outfile h =>
    consistent_of_not_alive (fun _ => hnone) (fun hwait => absurd hwait h)
      (by simp [Transcoding.alive,hnone])
  unfold Transcoding.callFfmpegForVideo Transcoding.jobExec
  split
  · exact ⟨hkept .destroy _ nofun,by simp [Transcoding.due],by simp [Transcoding.zombie,hnone],
      by simp [Transcoding.alive,hnone]⟩
  case _ size hsize =>
    split
    · cases forks with
      | true =>
        refine ⟨⟨nofun,nofun,fun _ => rfl,fun _ => ?_,nofun⟩,?_⟩
        · simp [hsize]
        · simp [Transcoding.due,Transcoding.Over,Transcoding.zombie]
      | false =>
        exact ⟨hkept .delete false nofun,by simp [Transcoding.due],
          by simp [Transcoding.zombie,hnone],by simp [Transcoding.alive,hnone]⟩
    · exact ⟨hkept .delete _ nofun,by simp [Transcoding.due],by simp [Transcoding.zombie,hnone],
        by simp [Transcoding.alive,hnone]⟩

/-- A consistent job that does not wait has no child that is alive. -/
theorem Transcoding.Consistent.not_alive (h : job.Consistent) (hstage : job.stage≠.wait) :
    job.alive=false := Bool.eq_false_iff.mpr fun halive => hstage (h.later halive)

/-- A job whose worker is past waiting goes on. -/
theorem Balanced.goes (h : Balanced jobs) (hjob : jobs[id]? = some job)
    (hstage : job.stage≠.wait) (hnew : new.child=job.child)
    (hnewStage : new.stage≠.wait ∧ new.stage≠.ffmpeg) : Balanced (jobs.set id new) := by
  have halive := (h.consistent job (mem_of_getElem? hjob)).not_alive hstage
  have hsame : new.alive=job.alive := by rw [Transcoding.alive,hnew,Transcoding.alive]
  refine h.set hjob (consistent_of_not_alive (fun hcall => absurd hcall hnewStage.2)
    (fun hwait => absurd hwait hnewStage.1) (hsame.trans halive)) ?_
    (h.apart.set hjob (fun hterminated => hnew ▸ hterminated) (fun hnew => hsame ▸ hnew))
  simp [Transcoding.due,Transcoding.zombie,hstage,hnewStage.1,hnew]

/-- A waiting worker's child has ended unless it is alive. -/
theorem Transcoding.Consistent.over (h : job.Consistent) (hstage : job.stage=.wait)
    (halive : job.alive=false) : job.Over := by
  obtain ⟨child,hchild⟩ := Option.ne_none_iff_exists'.mp (h.waits hstage)
  rw [Transcoding.alive,hchild] at halive
  unfold Transcoding.Over
  rw [hchild]
  cases child with
  | terminated => exact Or.inl rfl
  | reaped => exact Or.inr rfl
  | forked => cases halive
  | running => cases halive
  | returned => cases halive
  | destroys => cases halive

/-- Where a worker waits whose own child has ended, some child is to be reaped. -/
theorem Balanced.exists_zombie (h : Balanced jobs) (hjob : jobs[id]? = some job)
    (hstage : job.stage=.wait) (hover : job.Over) :
    ∃ (pid : ℕ) (other : Transcoding), jobs[pid]? = some other ∧ other.child=some .terminated := by
  have hpos : 0<jobs.countP Transcoding.due :=
    countP_pos_iff.mpr ⟨job,mem_of_getElem? hjob,decide_eq_true ⟨hstage,hover⟩⟩
  rw [h.balance] at hpos
  obtain ⟨other,hmem,hzombie⟩ := countP_pos_iff.mp hpos
  obtain ⟨pid,hpid⟩ := mem_iff_getElem?.mp hmem
  exact ⟨pid,other,hpid,of_decide_eq_true hzombie⟩

variable {other : Transcoding}

/-- The child of some worker is reaped, which leaves one child less for those that could go
on. -/
theorem Balanced.reaps (h : Balanced jobs) {pid : ℕ} (hother : jobs[pid]? = some other)
    (hterminated : other.child=some .terminated) :
    (∀ job∈jobs.set pid { other with child := some .reaped }, job.Consistent) ∧
      (jobs.set pid { other with child := some .reaped }).countP Transcoding.due=
        (jobs.set pid { other with child := some .reaped }).countP Transcoding.zombie+1 := by
  have hconsistent := h.consistent other (mem_of_getElem? hother)
  constructor
  · refine consistent_set h.consistent (consistent_of_not_alive (fun hcall => ?_) nofun rfl)
    have hnone := hconsistent.called hcall
    rw [hterminated] at hnone
    cases hnone
  · have hdue := countP_set_add Transcoding.due hother { other with child := some .reaped }
    have hzombie := countP_set_add Transcoding.zombie hother { other with child := some .reaped }
    have hbalance := h.balance
    have hsame : { other with child := some .reaped }.due=other.due := by
      simp [Transcoding.due,Transcoding.Over,hterminated]
    have hbefore : other.zombie=true := decide_eq_true hterminated
    have hafter : { other with child := some .reaped }.zombie=false := rfl
    rw [hsame] at hdue
    rw [hbefore,hafter] at hzombie
    simp only [if_true,Bool.false_eq_true,if_false] at hzombie
    omega

/-- wait returns to a worker with a child that has ended, and then no child is alive. -/
theorem Balanced.waits (h : Balanced jobs) {reaped : Option ℕ}
    (hstep : transcodingStep (.wait id reaped) jobs=some jobs') : Balanced jobs' := by
  obtain ⟨jobs₁,hreap,hchange⟩ := Option.bind_eq_some_iff.mp hstep
  obtain ⟨job,hjob,hstage,rfl⟩ := change_eq_some_iff.mp hchange
  have hwait := of_decide_eq_true hstage
  cases reaped with
  | none =>
    -- not without a child, since some child is to be reaped
    obtain ⟨hnone,hsame⟩ := Option.ite_none_left_eq_some.mp hreap
    cases hsame
    have hmem := mem_of_getElem? hjob
    have halive := Bool.eq_false_iff.mpr fun halive => hnone ⟨job,hmem,Or.inl halive⟩
    have hover := (h.consistent job hmem).over hwait halive
    obtain ⟨pid,other,hother,hzombie⟩ := h.exists_zombie hjob hwait hover
    exact absurd ⟨other,mem_of_getElem? hother,Or.inr hzombie⟩ hnone
  | some pid =>
    obtain ⟨other,hother,hchild,rfl⟩ := change_eq_some_iff.mp hreap
    have hterminated := of_decide_eq_true hchild
    obtain ⟨hconsistent,hbalance⟩ := h.reaps hother hterminated
    have hapart : Apart (jobs.set pid { other with child := some .reaped }) :=
      h.apart.set hother nofun nofun
    -- the child of this worker is not alive, as one was to be reaped
    have halive : job.alive=false := by
      rcases mem_or_eq_of_mem_set (mem_of_getElem? hjob) with hmem | rfl
      · exact h.apart other (mem_of_getElem? hother) hterminated job hmem
      · rfl
    have hover := (hconsistent job (mem_of_getElem? hjob)).over hwait halive
    refine ⟨consistent_set hconsistent (consistent_of_not_alive nofun nofun halive),?_,
      hapart.set hjob (fun h => h) fun h => h⟩
    have hdue := countP_set_add Transcoding.due hjob { job with stage := .delete }
    have hzombie := countP_set_add Transcoding.zombie hjob { job with stage := .delete }
    have hbefore : job.due=true := decide_eq_true ⟨hwait,hover⟩
    have hafter : { job with stage := .delete }.due=false := rfl
    have hsame : { job with stage := .delete }.zombie=job.zombie := rfl
    rw [hbefore,hafter] at hdue
    rw [hsame] at hzombie
    simp only [if_true,Bool.false_eq_true,if_false] at hdue
    omega

/-- A child ends while no other one is alive. -/
theorem Balanced.exits (h : Balanced jobs) (hjob : jobs[id]? = some job) (halive : job.alive=true)
    (hothers : ∀ other∈jobs.eraseIdx id, other.alive=false) :
    Balanced (jobs.set id { job with child := some .terminated }) := by
  have hwait := (h.consistent job (mem_of_getElem? hjob)).later halive
  have hchild : job.child≠some .terminated ∧ job.child≠some .reaped := by
    constructor <;> rintro hchild <;> simp [Transcoding.alive,hchild,Child.alive] at halive
  refine h.set hjob (consistent_of_not_alive (fun hcall => ?_) nofun rfl) ?_ ?_
  · cases hwait.symm.trans hcall
  · simp [Transcoding.due,Transcoding.zombie,Transcoding.Over,hchild.1,hchild.2,hwait]
  · intro _ _ _ other hother
    obtain ⟨index,hindex⟩ := mem_iff_getElem?.mp hother
    by_cases hsame : id=index
    · subst hsame
      rw [List.getElem?_set_self (List.getElem?_eq_some_iff.mp hjob).1] at hindex
      rw [←Option.some.inj hindex]
      rfl
    · rw [List.getElem?_set_ne hsame] at hindex
      exact hothers other (mem_eraseIdx_iff_getElem?.mpr ⟨index,Ne.symm hsame,hindex⟩)

/-- Steps of the kind keep the balance. -/
theorem balanced_step {event : Event} (h : Balanced jobs) (hsteps : event.Apart jobs)
    (hstep : transcodingStep event jobs=some jobs') : Balanced jobs' := by
  cases event with
  | start tmpfile outfile =>
    cases hstep
    have hnew : ∀ job∈jobs++[⟨.ffmpeg,none,tmpfile,outfile⟩],
        job∈jobs ∨ job=⟨.ffmpeg,none,tmpfile,outfile⟩ := fun job hjob =>
      (mem_append.mp hjob).imp_right mem_singleton.mp
    refine ⟨fun job hjob => ?_,?_,fun job hjob hterminated other hother => ?_⟩
    · rcases hnew job hjob with hmem | rfl
      · exact h.consistent job hmem
      · exact consistent_of_not_alive (fun _ => rfl) nofun rfl
    · rw [countP_append,countP_append,h.balance]
      rfl
    · rcases hnew job hjob with hmem | rfl
      · rcases hnew other hother with hmem' | rfl
        · exact h.apart job hmem hterminated other hmem'
        · rfl
      · cases hterminated
  | call id forks =>
    obtain ⟨job,hjob,hstage,rfl⟩ := change_eq_some_iff.mp hstep
    have hcalled := of_decide_eq_true hstage
    have hnone := (h.consistent job (mem_of_getElem? hjob)).called hcalled
    obtain ⟨hconsistent,hdue,hzombie,hforks⟩ := callFfmpegForVideo_consistent forks hnone
    refine h.set hjob hconsistent ?_ ?_
    · rw [hdue,hzombie]
      simp [Transcoding.due,Transcoding.zombie,hcalled,hnone]
    · intro dead hdead hterminated other hother
      have hdead' : dead∈jobs := by
        rcases mem_or_eq_of_mem_set hdead with hmem | rfl
        · exact hmem
        · exact absurd hterminated (of_decide_eq_false hzombie)
      rcases mem_or_eq_of_mem_set hother with hmem | rfl
      · exact h.apart dead hdead' hterminated other hmem
      · exact Bool.eq_false_iff.mpr fun halive => hsteps (hforks halive) dead hdead' hterminated
  | exec id succeeds =>
    obtain rfl : succeeds=true := hsteps
    obtain ⟨job,hjob,hforked,rfl⟩ := change_eq_some_iff.mp hstep
    have hchild := of_decide_eq_true hforked
    have hconsistent := h.consistent job (mem_of_getElem? hjob)
    have halive : job.alive=true := by rw [Transcoding.alive,hchild]; rfl
    have hwait := hconsistent.later halive
    refine h.set hjob ⟨fun hcall => ?_,nofun,fun _ => hwait,fun _ => hconsistent.kept halive,nofun⟩
      ?_ (h.apart.set hjob nofun fun _ => halive)
    · cases hwait.symm.trans hcall
    · simp [Transcoding.due,Transcoding.zombie,Transcoding.Over,hchild]
  | childDeletes id =>
    obtain ⟨job,hjob,hreturned,rfl⟩ := change_eq_some_iff.mp hstep
    exact absurd (of_decide_eq_true hreturned) (h.consistent job (mem_of_getElem? hjob)).execs
  | exit id =>
    obtain ⟨job,hjob,halive,rfl⟩ := change_eq_some_iff.mp hstep
    exact h.exits hjob halive hsteps
  | wait id reaped => exact h.waits hstep
  | delete id =>
    obtain ⟨job,hjob,hstage,rfl⟩ := change_eq_some_iff.mp hstep
    have hdelete := of_decide_eq_true hstage
    exact h.goes hjob (by rw [hdelete]; decide) rfl ⟨nofun,nofun⟩
  | destroy id =>
    obtain ⟨job,hjob,hstage,rfl⟩ := change_eq_some_iff.mp hstep
    have hdestroy := of_decide_eq_true hstage
    exact h.goes hjob (by rw [hdestroy]; decide) rfl ⟨nofun,nofun⟩

/-- wait returns with any child that has ended to any worker that waits. -/
theorem waits_any {pid : ℕ} (hother : jobs[pid]? = some other)
    (hterminated : other.child=some .terminated) (hjob : jobs[id]? = some job)
    (hstage : job.stage=.wait) :
    ∃ job', (jobs.set pid { other with child := some .reaped })[id]? = some job' ∧
      (id≠pid → job' = job) ∧ transcodingStep (.wait id (some pid)) jobs=
        some ((jobs.set pid { other with child := some .reaped }).set id
          { job' with stage := .delete }) := by
  have hreap : reap (some pid) jobs=some (jobs.set pid { other with child := some .reaped }) :=
    change_eq_some_iff.mpr ⟨other,hother,decide_eq_true hterminated,rfl⟩
  have hwaits : ∃ job', (jobs.set pid { other with child := some .reaped })[id]? = some job' ∧
      (id≠pid → job' = job) ∧ job'.stage=.wait := by
    by_cases hsame : pid=id
    · subst hsame
      refine ⟨_,List.getElem?_set_self (List.getElem?_eq_some_iff.mp hother).1,
        fun hne => absurd rfl hne,?_⟩
      cases hother.symm.trans hjob
      exact hstage
    · exact ⟨job,by rw [List.getElem?_set_ne hsame,hjob],fun _ => rfl,hstage⟩
  obtain ⟨job',hjob',hother',hstage'⟩ := hwaits
  exact ⟨job',hjob',hother',Option.bind_eq_some_iff.mpr
    ⟨_,hreap,change_eq_some_iff.mpr ⟨job',hjob',decide_eq_true hstage',rfl⟩⟩⟩

/-- Where children overlap, the worker of the one that is alive can reap the other one and
delete the file. -/
theorem not_isolated_of_overlap {pid : ℕ} (hother : jobs[pid]? = some other)
    (hterminated : other.child=some .terminated) (hjob : jobs[id]? = some job)
    (hstage : job.stage=.wait) (halive : job.alive=true) :
    ∃ jobs', run transcodingStep [.wait id (some pid),.delete id] jobs=some jobs' ∧
      ¬Isolated jobs' := by
  have hne : id≠pid := by
    rintro rfl
    cases hjob.symm.trans hother
    simp [Transcoding.alive,hterminated,Child.alive] at halive
  obtain ⟨job',hjob',hsame,hwait⟩ := waits_any hother hterminated hjob hstage
  obtain rfl := hsame hne
  have hlength := (List.getElem?_eq_some_iff.mp hjob').1
  have hdelete : transcodingStep (.delete id) ((jobs.set pid
      { other with child := some .reaped }).set id { job' with stage := .delete })=some _ :=
    change_eq_some_iff.mpr ⟨_,List.getElem?_set_self hlength,decide_eq_true rfl,rfl⟩
  refine ⟨_,by simp only [run,hwait,hdelete]; rfl,fun h => ?_⟩
  refine h.keeps { job' with stage := .destroy, tmpfile := none } ?_ halive rfl
  exact mem_of_getElem? (List.getElem?_set_self (by simpa using hlength))

/-- Where a worker waits whose own child has ended, wait can return. -/
theorem Balanced.isolated (h : Balanced jobs) : Isolated jobs := by
  refine ⟨fun job hjob => (h.consistent job hjob).kept,fun job hjob hstage => ?_,
    fun id job hjob hstage hover => ?_⟩
  · refine (h.consistent job hjob).not_alive fun hwait => ?_
    rw [hwait] at hstage
    rcases hstage with hstage | hstage <;> cases hstage
  · obtain ⟨pid,other,hother,hzombie⟩ := h.exists_zombie hjob hstage hover
    obtain ⟨_,_,_,hwait⟩ := waits_any hother hzombie hjob hstage
    exact ⟨some pid,Option.isSome_iff_exists.mpr ⟨_,hwait⟩⟩

/-- A worker waits whose own child has ended. -/
def Due (id : ℕ) (jobs : List Transcoding) : Prop :=
  ∃ job, jobs[id]? = some job ∧ job.stage=.wait ∧ job.Over

/-- A change of some job keeps that of a worker that waits, unless it is this one that
changes to something else. -/
theorem Due.changes {id' : ℕ} {p : Transcoding→Bool} {f : Transcoding→Transcoding}
    (hdue : Due id jobs) (hstep : change id' p f jobs=some jobs')
    (hkeeps : id' = id→∀ job : Transcoding, job.stage=.wait → job.Over → p job=true →
      (f job).stage=.wait ∧ (f job).Over) : Due id jobs' := by
  obtain ⟨job,hjob,hstage,hover⟩ := hdue
  obtain ⟨changed,hchanged,hp,rfl⟩ := change_eq_some_iff.mp hstep
  by_cases hsame : id' = id
  · subst hsame
    cases hjob.symm.trans hchanged
    refine ⟨f job,List.getElem?_set_self (List.getElem?_eq_some_iff.mp hjob).1,?_⟩
    exact hkeeps rfl job hstage hover hp
  · exact ⟨job,by rw [List.getElem?_set_ne hsame,hjob],hstage,hover⟩

/-- Only wait ends a worker's waiting. -/
theorem Due.step {event : Event} (hdue : Due id jobs)
    (hstep : transcodingStep event jobs=some jobs') (hwait : ¬∃ reaped, event=.wait id reaped) :
    Due id jobs' := by
  cases event with
  | start tmpfile outfile =>
    cases hstep
    obtain ⟨job,hjob,hstage,hover⟩ := hdue
    refine ⟨job,?_,hstage,hover⟩
    rw [List.getElem?_append_left (List.getElem?_eq_some_iff.mp hjob).1,hjob]
  | call id' forks =>
    refine hdue.changes hstep fun _ job hstage _ hp => ?_
    rw [hstage] at hp
    cases hp
  | exec id' succeeds =>
    refine hdue.changes hstep fun _ job _ hover hp => ?_
    have hforked := of_decide_eq_true hp
    rcases hover with hover | hover <;> cases hover.symm.trans hforked
  | childDeletes id' =>
    refine hdue.changes hstep fun _ job _ hover hp => ?_
    have hreturned := of_decide_eq_true hp
    rcases hover with hover | hover <;> cases hover.symm.trans hreturned
  | exit id' => exact hdue.changes hstep fun _ _ hstage _ _ => ⟨hstage,Or.inl rfl⟩
  | wait id' reaped =>
    obtain ⟨jobs₁,hreap,hchange⟩ := Option.bind_eq_some_iff.mp hstep
    have hreaped : Due id jobs₁ := by
      cases reaped with
      | none =>
        cases (Option.ite_none_left_eq_some.mp hreap).2
        exact hdue
      | some pid => exact hdue.changes hreap fun _ _ hstage _ _ => ⟨hstage,Or.inr rfl⟩
    exact hreaped.changes hchange fun hsame => absurd ⟨reaped,hsame ▸ rfl⟩ hwait
  | delete id' =>
    refine hdue.changes hstep fun _ job hstage _ hp => ?_
    rw [hstage] at hp
    cases hp
  | destroy id' =>
    refine hdue.changes hstep fun _ job hstage _ hp => ?_
    rw [hstage] at hp
    cases hp

theorem balanced_nil : Balanced [] := ⟨nofun,rfl,nofun⟩

/-- In a run in which children do not overlap, each of which becomes ffmpeg, no temporary file
is deleted before the child that reads it has ended, and workers whose own child has ended can
go on. Where the run goes on without end they do, if wait returns at some time where it always
can. -/
theorem transcoding_isolated (events : List Event) (jobs : List Transcoding)
    (halong : Along transcodingStep Event.Apart events [])
    (hrun : run transcodingStep events []=some jobs) :
    Isolated jobs ∧ ∀ endless : EndlessRun transcodingStep, endless.states 0=jobs →
        (∀ n, (endless.actions n).Apart (endless.states n)) →
        ∀ id, (endless.WeaklyFair fun event => ∃ reaped, event=.wait id reaped) →
        ∀ n, Due id (endless.states n) → ∃ m reaped, n ≤ m ∧ endless.actions m=.wait id reaped := by
  have hreached := run_invariant balanced_step balanced_nil halong hrun
  refine ⟨hreached.isolated,fun endless hstart hsteps id hfair n hdue => ?_⟩
  have hbalanced := endless.invariant balanced_step (hstart ▸ hreached) hsteps
  obtain ⟨m,hm,reaped,hwait⟩ := endless.eventually hfair
    (C := Due id) (fun m _ ⟨job,hjob,hstage,hover⟩ => by
      obtain ⟨reaped,hpossible⟩ := (hbalanced m).isolated.releases id job hjob hstage hover
      exact ⟨.wait id reaped,⟨reaped,rfl⟩,hpossible⟩)
    (fun m _ hdue hwait => hdue.step (endless.steps m) hwait) hdue
  exact ⟨m,reaped,hm,hwait⟩

/-- wait returns to a worker that waits. -/
theorem exists_stage_wait {reaped : Option ℕ}
    (hstep : transcodingStep (.wait id reaped) jobs=some jobs') :
    ∃ job, jobs[id]? = some job ∧ job.stage=.wait := by
  obtain ⟨jobs₁,hreap,hchange⟩ := Option.bind_eq_some_iff.mp hstep
  obtain ⟨job,hjob,hstage,-⟩ := change_eq_some_iff.mp hchange
  cases reaped with
  | none =>
    cases (Option.ite_none_left_eq_some.mp hreap).2
    exact ⟨job,hjob,of_decide_eq_true hstage⟩
  | some pid =>
    obtain ⟨other,hother,-,rfl⟩ := change_eq_some_iff.mp hreap
    by_cases hsame : pid=id
    · subst hsame
      rw [List.getElem?_set_self (List.getElem?_eq_some_iff.mp hother).1] at hjob
      cases hjob
      exact ⟨other,hother,of_decide_eq_true hstage⟩
    · rw [List.getElem?_set_ne hsame] at hjob
      exact ⟨job,hjob,of_decide_eq_true hstage⟩

/-- The steps of one worker after another, until the second one's child has ended. -/
def inTurn : List Event :=
  [.start (some 1) true,.start (some 2) false,.call 0 true,.exec 0 true,.exit 0,
    .wait 0 (some 0),.delete 0,.call 1 true,.exec 1 true,.destroy 0,.exit 1]

/-- Its worker goes on, and then jobs start for ever. -/
def onwards : EndlessRun transcodingStep where
  states
    | 0 => [⟨.ended,some .reaped,none,false⟩,⟨.wait,some .terminated,some 2,false⟩]
    | n+1 => ⟨.ended,some .reaped,none,false⟩::⟨.delete,some .reaped,some 2,false⟩::
        List.replicate n ⟨.ffmpeg,none,none,false⟩
  actions
    | 0 => .wait 1 (some 1)
    | _ + 1 => .start none false
  steps
    | 0 => rfl
    | n+1 => by simp [transcodingStep,replicate_succ']

theorem transcoding_isolated_inTurn :
    run transcodingStep inTurn []=some (onwards.states 0) ∧ Isolated (onwards.states 0) ∧
      ∃ m reaped, 0 ≤ m ∧ onwards.actions m=.wait 1 reaped := by
  have h := transcoding_isolated inTurn (onwards.states 0) (by decide) rfl
  refine ⟨rfl,h.1,h.2 onwards rfl (fun n => ?_) 1 (fun n hpossible => ?_) 0 ⟨_,rfl,rfl,Or.inl rfl⟩⟩
  · cases n <;> trivial
  · -- once the worker has gone on it does not wait
    obtain ⟨_,⟨reaped,rfl⟩,hsome⟩ := hpossible (n+1) n.le_succ
    obtain ⟨_,hnext⟩ := Option.isSome_iff_exists.mp hsome
    obtain ⟨job,hjob,hstage⟩ := exists_stage_wait hnext
    cases hjob
    cases hstage

/-- Of two workers the first reaps the child of the second and deletes the file that its own
ffmpeg is still reading. The second one, whose child has ended, cannot go on. A worker's child
that does not become ffmpeg deletes the file itself. -/
theorem not_transcoding_isolated :
    (∃ jobs, run transcodingStep [.start (some 1) false,.start (some 1) false,.call 0 true,
        .call 1 true,.exec 0 true,.exec 1 true,.exit 1,.wait 0 (some 1),.delete 0] []=some jobs ∧
      jobs=[⟨.destroy,some .running,none,false⟩,⟨.wait,some .reaped,some 1,false⟩] ∧
      ¬Isolated jobs ∧ ∀ reaped, transcodingStep (.wait 1 reaped) jobs=none) ∧
    ∃ jobs, run transcodingStep [.start (some 1) false,.call 0 true,.exec 0 false,
      .childDeletes 0] []=some jobs ∧ ¬Isolated jobs := by
  refine ⟨⟨_,rfl,rfl,fun h => ?_,fun reaped => ?_⟩,_,rfl,fun h => ?_⟩
  · exact h.keeps _ mem_cons_self rfl rfl
  · cases reaped with
    | none => rfl
    | some pid => rcases pid with _ | _ | pid <;> rfl
  · exact h.keeps _ mem_cons_self rfl rfl

end GuacServer.EncoderTranscoding
