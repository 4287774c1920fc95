import Mathlib.Data.List.Induction
import Mathlib.Order.Bounds.Basic
import GuacServer.UserHandlers

/-!
# The baseline of lag estimation

How the lag statistics of a user develop over a sequence of syncs. The duration
of the last frame without lag is meant to be the shortest duration measured so
far, and the lag what the last duration exceeds it by. The value of 0, however,
also stands for a user that has not acknowledged a frame yet, so that a frame
acknowledged at once makes the next duration the baseline, whatever it is.
-/

namespace GuacServer.UserHandlers

open DecimalNumerals List UserStreams

variable {H : Type}

/-- A sync instruction as it arrives. -/
structure SyncCall (H : Type) where
  /-- The environment at its arrival. -/
  env : Environment H
  /-- Its first argument. -/
  value : List UInt8
  /-- Further arguments, which are not read. -/
  further : List (List UInt8)

/-- The timestamp acknowledged. -/
def SyncCall.timestamp (sync : SyncCall H) : ℤ := guacParseInt sync.value

/-- The time between the timestamp and its arrival. -/
def SyncCall.duration (sync : SyncCall H) : ℤ := sync.env.timestampCurrent-sync.timestamp

/-- What a call of __guac_handle_sync makes of the user. -/
def SyncCall.handle (sync : SyncCall H) (user : GuacUser H) : Option (GuacUser H) :=
  (guacHandleSync sync.env (sync.value::sync.further) user).map Prod.snd

/-- Calls of __guac_handle_sync in order. -/
def handleSyncs (syncs : List (SyncCall H)) (user : GuacUser H) : Option (GuacUser H) :=
  syncs.foldlM (fun user sync => sync.handle user) user

/-- An installed sync handler leaves the lag statistics alone. -/
def KeepsLag (env : Environment H) : Prop :=
  ∀ handler∈env.handlers.syncHandler, ∀ timestamp user,
    (env.call handler (.sync timestamp) user).2.lastReceivedTimestamp=user.lastReceivedTimestamp ∧
    (env.call handler (.sync timestamp) user).2.lastFrameDuration=user.lastFrameDuration ∧
    (env.call handler (.sync timestamp) user).2.processingLag=user.processingLag

/-- Accepted syncs of a user who joined at the given time. -/
structure AcceptedSyncs (joined : ℤ) (syncs : List (SyncCall H)) : Prop where
  /-- Timestamps do not decrease. -/
  ordered : syncs.Pairwise fun sync later => sync.timestamp≤later.timestamp
  /-- None is from before the user joined. -/
  sane : ∀ sync∈syncs, joined ≤ sync.timestamp
  /-- None is in the future. -/
  sent : ∀ sync∈syncs, sync.timestamp ≤ sync.env.lastSentTimestamp
  /-- None arrives before it was made. -/
  arrived : ∀ sync∈syncs, 0 ≤ sync.duration
  /-- Installed handlers leave the statistics alone. -/
  handlers : ∀ sync∈syncs, KeepsLag sync.env

/-- The statistics of guac_user_alloc. -/
structure Joined (joined : ℤ) (user : GuacUser H) : Prop where
  lastReceivedTimestamp : user.lastReceivedTimestamp=joined
  lastFrameDuration : user.lastFrameDuration=0
  processingLag : user.processingLag=0

/-- A new user has joined. -/
theorem joined_guacUserAlloc (now : ℤ) : Joined now (guacUserAlloc now : GuacUser H) :=
  ⟨rfl,rfl,rfl⟩

/-- The timestamp received last, after a sequence of syncs. -/
structure Latest (earlier : List (SyncCall H)) (last : SyncCall H) (user : GuacUser H) : Prop where
  /-- It is the largest received. -/
  received : IsGreatest {t | t∈(earlier++[last]).map SyncCall.timestamp} user.lastReceivedTimestamp
  /-- It is not beyond that sent last. -/
  sent : user.lastReceivedTimestamp≤last.env.lastSentTimestamp

/-- The statistics after a sequence of syncs, in closed form. -/
structure ClosedForm (earlier : List (SyncCall H)) (last : SyncCall H) (user : GuacUser H) :
    Prop extends Latest earlier last user where
  /-- The baseline is the shortest duration. -/
  baseline : IsLeast {d | d∈(earlier++[last]).map SyncCall.duration} user.lastFrameDuration
  /-- The lag is what the last duration exceeds it by. -/
  lag : user.processingLag=last.duration-user.lastFrameDuration

/-- The baseline after a frame of the given duration. -/
def nextBaseline (baseline duration : ℤ) : ℤ :=
  if baseline≠0 ∧ 0≤wrap32 (duration-baseline) then baseline else wrap32 duration

/-- The baseline after all frames. -/
def baselineOf (durations : List ℤ) : ℤ := durations.foldl nextBaseline 0

theorem baselineOf_concat (earlier : List ℤ) (last : ℤ) :
    baselineOf (earlier++[last])=nextBaseline (baselineOf earlier) last :=
  foldl_append

/-- The statistics are ints, and there is no lag before the first frame. -/
structure Settled (user : GuacUser H) : Prop where
  isInt : wrap32 user.lastFrameDuration=user.lastFrameDuration
  lag : user.lastFrameDuration=0 → user.processingLag=0

theorem wrap32_wrap32 (x : ℤ) : wrap32 (wrap32 x)=wrap32 x := Int.bmod_bmod

theorem wrap32_wrap64 (x : ℤ) : wrap32 (wrap64 x)=wrap32 x := Int.bmod_bmod_of_dvd (by decide)

theorem wrap32_sub_left (x y : ℤ) : wrap32 (wrap32 x-y)=wrap32 (x-y) := Int.bmod_sub_bmod

theorem wrap32_sub_right (x y : ℤ) : wrap32 (x-wrap32 y)=wrap32 (x-y) := Int.sub_bmod_bmod

/-- The next baseline is an int. -/
theorem wrap32_nextBaseline {baseline : ℤ} (h : wrap32 baseline=baseline) (duration : ℤ) :
    wrap32 (nextBaseline baseline duration)=nextBaseline baseline duration := by
  unfold nextBaseline
  split
  · exact h
  · exact wrap32_wrap32 duration

variable {user : GuacUser H}

/-- What a sane timestamp makes of the statistics. -/
theorem updateLag_settled (hsettled : Settled user) (current : ℤ)
    {timestamp : ℤ} (hsane : user.lastReceivedTimestamp≤timestamp) :
    (updateLag current timestamp user).lastReceivedTimestamp=timestamp ∧
      (updateLag current timestamp user).lastFrameDuration=
        nextBaseline user.lastFrameDuration (current-timestamp) ∧
      (updateLag current timestamp user).processingLag=wrap32 (current-timestamp -
          nextBaseline user.lastFrameDuration (current-timestamp)) := by
  unfold updateLag nextBaseline
  rw [if_pos hsane]
  dsimp only
  simp only [wrap32_wrap64,wrap32_sub_left,true_and]
  by_cases hzero : user.lastFrameDuration=0
  · -- the lag stays what it is, which is none
    rw [if_neg (not_not.mpr hzero),if_neg fun h => h.1 hzero,hsettled.lag hzero,
      Int.sub_zero,wrap32_sub_right,Int.sub_self]
    exact ⟨rfl,rfl⟩
  · rw [if_pos hzero]
    by_cases hlag : 0≤wrap32 (current-timestamp-user.lastFrameDuration)
    · rw [if_pos ⟨hzero,hlag⟩,max_eq_right hlag,wrap32_sub_right,Int.sub_sub_self,hsettled.isInt]
      exact ⟨rfl,rfl⟩
    · rw [if_neg fun h => hlag h.2,max_eq_left (by omega),Int.sub_zero,
        wrap32_sub_right,Int.sub_self]
      exact ⟨rfl,rfl⟩

/-- A baseline of 0 is that of a frame without lag. -/
theorem wrap32_of_nextBaseline_eq_zero {baseline duration : ℤ}
    (h : nextBaseline baseline duration=0) : wrap32 duration=0 := by
  unfold nextBaseline at h
  split at h
  · next hkept => exact absurd h hkept.1
  · exact h

/-- A sync that is not in the future updates the statistics before the installed
handler is called. -/
theorem SyncCall.handle_of_sent {sync : SyncCall H}
    (hsent : sync.timestamp ≤ sync.env.lastSentTimestamp) (user : GuacUser H) :
    sync.handle user=match sync.env.handlers.syncHandler with
      | some handler => some (sync.env.call handler (.sync sync.timestamp)
          (updateLag sync.env.timestampCurrent sync.timestamp user)).2
      | none => some (updateLag sync.env.timestampCurrent sync.timestamp user) := by
  have hnot : ¬ guacParseInt sync.value > sync.env.lastSentTimestamp := not_lt.mpr hsent
  unfold SyncCall.handle guacHandleSync
  dsimp [argument]
  rw [List.getElem?_cons_zero,Option.bind_some,if_neg hnot]
  cases sync.env.handlers.syncHandler <;> rfl

/-- An accepted sync. -/
theorem SyncCall.handle_settled {sync : SyncCall H} (hsettled : Settled user)
    (hsane : user.lastReceivedTimestamp ≤ sync.timestamp)
    (hsent : sync.timestamp ≤ sync.env.lastSentTimestamp) (hkeeps : KeepsLag sync.env) :
    ∃ user', sync.handle user=some user' ∧ Settled user' ∧
      user'.lastReceivedTimestamp=sync.timestamp ∧
      user'.lastFrameDuration=nextBaseline user.lastFrameDuration sync.duration ∧
      user'.processingLag=wrap32 (sync.duration-user'.lastFrameDuration) := by
  have hupdated : ∀ user' : GuacUser H,
      user'.lastFrameDuration=nextBaseline user.lastFrameDuration sync.duration →
      user'.processingLag=wrap32 (sync.duration-nextBaseline user.lastFrameDuration sync.duration) →
      Settled user' ∧ user'.lastFrameDuration=nextBaseline user.lastFrameDuration sync.duration ∧
        user'.processingLag=wrap32 (sync.duration-user'.lastFrameDuration) := by
    intro user' hbaseline hlag
    rw [←hbaseline] at hlag
    refine ⟨⟨?_,fun hzero => ?_⟩,hbaseline,hlag⟩
    · rw [hbaseline,wrap32_nextBaseline hsettled.isInt]
    · rw [hlag,hzero,Int.sub_zero,wrap32_of_nextBaseline_eq_zero (hbaseline ▸ hzero)]
  obtain ⟨hreceived,hbaseline,hlag⟩ := updateLag_settled hsettled sync.env.timestampCurrent hsane
  rw [sync.handle_of_sent hsent]
  cases hhandler : sync.env.handlers.syncHandler with
  | none =>
    obtain ⟨hs,hb,hl⟩ := hupdated _ hbaseline hlag
    exact ⟨_,rfl,hs,hreceived,hb,hl⟩
  | some handler =>
    obtain ⟨hr',hb',hl'⟩ := hkeeps handler hhandler sync.timestamp
      (updateLag sync.env.timestampCurrent sync.timestamp user)
    obtain ⟨hs,hb,hl⟩ := hupdated _ (hb'.trans hbaseline) (hl'.trans hlag)
    exact ⟨_,rfl,hs,hr'.trans hreceived,hb,hl⟩

variable {joined : ℤ}

/-- Accepted syncs up to some point. -/
theorem AcceptedSyncs.of_prefix {syncs first : List (SyncCall H)}
    (h : AcceptedSyncs joined syncs) (hinit : first <+: syncs) : AcceptedSyncs joined first :=
  ⟨h.ordered.sublist hinit.sublist,fun sync hsync => h.sane sync (hinit.mem hsync),
    fun sync hsync => h.sent sync (hinit.mem hsync),
    fun sync hsync => h.arrived sync (hinit.mem hsync),
    fun sync hsync => h.handlers sync (hinit.mem hsync)⟩

/-- The last timestamp is the largest. -/
theorem AcceptedSyncs.le_last {earlier : List (SyncCall H)} {last : SyncCall H}
    (h : AcceptedSyncs joined (earlier++[last])) :
    ∀ t∈joined::earlier.map SyncCall.timestamp, t≤last.timestamp := by
  intro t ht
  rcases mem_cons.mp ht with rfl | ht
  · exact h.sane last (by simp)
  · obtain ⟨sync,hsync,rfl⟩ := mem_map.mp ht
    exact (pairwise_append.mp h.ordered).2.2 sync hsync last (mem_singleton_self _)

/-- Syncs are handled one by one. -/
theorem handleSyncs_concat (earlier : List (SyncCall H)) (last : SyncCall H) (user : GuacUser H) :
    handleSyncs (earlier++[last]) user=(handleSyncs earlier user).bind last.handle := by
  unfold handleSyncs
  rw [foldlM_append]
  congr 1
  funext user'
  exact foldlM_cons.trans (bind_pure _)

/-- A sequence of accepted syncs, from the state of a user that joined. -/
theorem handleSyncs_settled (hjoined : Joined joined user)
    (syncs : List (SyncCall H)) (h : AcceptedSyncs joined syncs) :
    ∃ user', handleSyncs syncs user=some user' ∧ Settled user' ∧
      user'.lastReceivedTimestamp∈joined::syncs.map SyncCall.timestamp ∧
      user'.lastFrameDuration=baselineOf (syncs.map SyncCall.duration) := by
  induction syncs using List.reverseRecOn with
  | nil =>
    refine ⟨user,rfl,⟨?_,fun _ => hjoined.processingLag⟩,?_,hjoined.lastFrameDuration⟩
    · rw [hjoined.lastFrameDuration]
      rfl
    · rw [hjoined.lastReceivedTimestamp]
      exact mem_cons_self
  | append_singleton earlier last ih =>
    obtain ⟨user₁,hrun,hsettled,hreceived,hbaseline⟩ := ih (h.of_prefix (prefix_append _ _))
    have hmem : last∈earlier++[last] := by simp
    obtain ⟨user₂,hlast,hsettled₂,hreceived₂,hbaseline₂,-⟩ :=
      last.handle_settled hsettled (h.le_last _ hreceived) (h.sent last hmem) (h.handlers last hmem)
    refine ⟨user₂,?_,hsettled₂,?_,?_⟩
    · rw [handleSyncs_concat,hrun]
      exact hlast
    · rw [hreceived₂]
      exact mem_cons_of_mem _ (mem_map_of_mem hmem)
    · rw [hbaseline₂,hbaseline,map_append,map_singleton,baselineOf_concat]

/-- The closed form over durations. -/
def Exact (earlier : List ℤ) (last : ℤ) : Prop :=
  IsLeast {d | d∈earlier++[last]} (baselineOf (earlier++[last])) ∧
    wrap32 (last-baselineOf (earlier++[last]))=last-baselineOf (earlier++[last])

/-- The statistics are in closed form when the durations are. -/
theorem handleSyncs_closedForm (hjoined : Joined joined user)
    {earlier : List (SyncCall H)} {last : SyncCall H}
    (h : AcceptedSyncs joined (earlier++[last])) :
    ∃ user', handleSyncs (earlier++[last]) user=some user' ∧ Latest earlier last user' ∧
      (ClosedForm earlier last user' ↔ Exact (earlier.map SyncCall.duration) last.duration) := by
  obtain ⟨user₁,hrun,hsettled,hreceived,hbaseline⟩ :=
    handleSyncs_settled hjoined earlier (h.of_prefix (prefix_append _ _))
  have hmem : last∈earlier++[last] := by simp
  obtain ⟨user₂,hlast,-,hreceived₂,hbaseline₂,hlag₂⟩ :=
    last.handle_settled hsettled (h.le_last _ hreceived) (h.sent last hmem) (h.handlers last hmem)
  have hbaseline' : user₂.lastFrameDuration=
      baselineOf (earlier.map SyncCall.duration++[last.duration]) := by
    rw [hbaseline₂,hbaseline,baselineOf_concat]
  have hlatest : Latest earlier last user₂ := by
    refine ⟨⟨?_,fun t ht => ?_⟩,hreceived₂ ▸ h.sent last hmem⟩
    · rw [hreceived₂]
      exact mem_map_of_mem hmem
    · rw [hreceived₂]
      rw [map_append] at ht
      rcases mem_append.mp ht with ht | ht
      · exact h.le_last t (mem_cons_of_mem _ ht)
      · exact (mem_singleton.mp ht).le
  have hrun' : handleSyncs (earlier++[last]) user=some user₂ := by
    rw [handleSyncs_concat,hrun]
    exact hlast
  refine ⟨user₂,hrun',hlatest,fun hclosed => ⟨?_,?_⟩,fun hexact => ⟨hlatest,?_,?_⟩⟩
  · have hleast := hclosed.baseline
    rwa [map_append,hbaseline'] at hleast
  · rw [←hbaseline',←hlag₂,hclosed.lag]
  · rw [map_append,hbaseline']
    exact hexact.1
  · rw [hlag₂,hbaseline']
    exact hexact.2

/-- Within the range of an int, a baseline other than 0 is kept by durations
that are not shorter. -/
theorem nextBaseline_of_int {baseline duration : ℤ} (hb0 : 0≤baseline) (hb : baseline<2^31)
    (hd0 : 0≤duration) (hd : duration<2^31) :
    nextBaseline baseline duration=
      if baseline≠0 ∧ baseline≤duration then baseline else duration := by
  unfold nextBaseline
  rw [wrap32_of_range (x := duration-baseline) (by omega) (by omega),
    wrap32_of_range (x := duration) (by omega) hd]
  simp only [sub_nonneg]

variable {durations earlier : List ℤ}

/-- Durations within the range of an int keep the baseline there. -/
theorem baselineOf_range (h : ∀ d∈durations, 0≤d ∧ d<2^31) :
    0≤baselineOf durations ∧ baselineOf durations<2^31 := by
  induction durations using List.reverseRecOn with
  | nil => exact ⟨le_refl 0,by decide⟩
  | append_singleton earlier last ih =>
    obtain ⟨hb0,hb⟩ := ih fun d hd => h d (mem_append_left _ hd)
    obtain ⟨hd0,hd⟩ := h last (by simp)
    rw [baselineOf_concat,nextBaseline_of_int hb0 hb hd0 hd]
    split <;> omega

variable {last : ℤ}

/-- The least of some durations and another one, which is less. -/
theorem isLeast_concat_of_le (h : ∀ d∈earlier, last≤d) :
    IsLeast {d | d∈earlier++[last]} last := by
  refine ⟨by simp,fun d hd => ?_⟩
  rcases mem_append.mp hd with hd | hd
  · exact h d hd
  · exact (mem_singleton.mp hd).ge

/-- The least of some durations and another one, which is not less. -/
theorem isLeast_concat_of_ge {least last : ℤ} (h : IsLeast {d | d∈earlier} least)
    (hle : least≤last) : IsLeast {d | d∈earlier++[last]} least := by
  refine ⟨mem_append_left _ h.1,fun d hd => ?_⟩
  rcases mem_append.mp hd with hd | hd
  · exact h.2 hd
  · exact (mem_singleton.mp hd).symm ▸ hle

/-- Without a duration of 0 the baseline is the shortest one. -/
theorem baselineOf_isLeast (hint : ∀ d∈durations, 0≤d ∧ d<2^31) (hne : durations≠[])
    (hzero : 0 ∉ durations) : IsLeast {d | d∈durations} (baselineOf durations) := by
  induction durations using List.reverseRecOn with
  | nil => exact absurd rfl hne
  | append_singleton earlier last ih =>
    have hearlier : ∀ d∈earlier, 0≤d ∧ d<2^31 :=
      fun d hd => hint d (mem_append_left _ hd)
    obtain ⟨hb0,hb⟩ := baselineOf_range hearlier
    obtain ⟨hd0,hd⟩ := hint last (by simp)
    rw [baselineOf_concat,nextBaseline_of_int hb0 hb hd0 hd]
    by_cases hnil : earlier=[]
    · rw [hnil,if_neg fun h => h.1 rfl]
      exact ⟨mem_singleton_self last,fun d hd => (mem_singleton.mp hd).ge⟩
    · have hleast := ih hearlier hnil fun h => hzero (mem_append_left _ h)
      have hne0 : baselineOf earlier≠0 := fun h => hzero (mem_append_left _ (h ▸ hleast.1))
      by_cases hle : baselineOf earlier≤last
      · rw [if_pos ⟨hne0,hle⟩]
        exact isLeast_concat_of_ge hleast hle
      · rw [if_neg fun h => hle h.2]
        exact isLeast_concat_of_le fun d hd => (not_le.mp hle).le.trans (hleast.2 hd)

/-- Within the range of an int, the closed form holds after the last frame
unless that took time and an earlier one took none. -/
theorem exact_iff (hint : ∀ d∈earlier++[last], 0≤d ∧ d<2^31) :
    Exact earlier last ↔ (0∈earlier++[last] → last=0) := by
  obtain ⟨hb0,hb⟩ := baselineOf_range fun d hd => hint d (mem_append_left [last] hd)
  obtain ⟨hd0,hd⟩ := hint last (by simp)
  obtain ⟨hb0',hb'⟩ := baselineOf_range hint
  have hzero : baselineOf (earlier++[last])=0 ↔ last=0 := by
    rw [baselineOf_concat,nextBaseline_of_int hb0 hb hd0 hd]
    split <;> omega
  refine ⟨fun hexact hmem => ?_,fun h => ⟨?_,wrap32_of_range (by omega) (by omega)⟩⟩
  · have hle := hexact.1.2 hmem
    exact hzero.mp (le_antisymm hle hb0')
  · by_cases hmem : 0∈earlier++[last]
    · rw [hzero.mpr (h hmem)]
      exact ⟨hmem,fun d hd => (hint d hd).1⟩
    · exact baselineOf_isLeast hint (by simp) hmem

/-- The condition on all durations: no frame that takes time follows one that
takes none, and durations and their differences are ints. -/
def BaselineKept (durations : List ℤ) : Prop :=
  (durations.Pairwise fun d later => later<d+2^31 ∧ (d=0 → later=0)) ∧ ∀ d∈durations.head?, d<2^31

/-- After a frame without duration, only such frames keep the closed form. -/
theorem exact_iff_of_zero (hleast : IsLeast {d | d∈earlier} 0)
    (hzero : baselineOf earlier=0) (hlast : 0≤last) : Exact earlier last ↔ last=0 := by
  unfold Exact
  rw [baselineOf_concat,hzero,nextBaseline,if_neg fun h => h.1 rfl]
  refine ⟨fun ⟨hleast',hlag⟩ => ?_,?_⟩
  · have hle : wrap32 last≤0 := hleast'.2 (mem_append_left _ hleast.1)
    have hge : 0≤wrap32 last := by
      rcases mem_append.mp hleast'.1 with hmem | hmem
      · exact hleast.2 hmem
      · exact hlast.trans (mem_singleton.mp hmem).ge
    rw [wrap32_sub_right,Int.sub_self] at hlag
    have hself : wrap32 last=last := (sub_eq_zero.mp hlag.symm).symm
    omega
  · rintro rfl
    exact ⟨isLeast_concat_of_ge hleast (le_refl 0),rfl⟩

/-- A baseline other than 0 stays the shortest duration as long as the lag is an
int. -/
theorem exact_iff_of_pos (hleast : IsLeast {d | d∈earlier} (baselineOf earlier))
    (hb0 : 0<baselineOf earlier) (hb : baselineOf earlier<2^31) (hlast : 0≤last) :
    Exact earlier last ↔ last<baselineOf earlier+2^31 := by
  unfold Exact
  rw [baselineOf_concat,nextBaseline]
  by_cases hkept : 0≤wrap32 (last-baselineOf earlier)
  · rw [if_pos ⟨hb0.ne',hkept⟩]
    refine ⟨fun ⟨_,hlag⟩ => ?_,fun hlt => ?_⟩
    · have hlt := wrap32_lt (last-baselineOf earlier)
      omega
    · have hlag := wrap32_of_range (x := last-baselineOf earlier) (by omega) (by omega)
      exact ⟨isLeast_concat_of_ge hleast (by omega),hlag⟩
  · rw [if_neg fun h => hkept h.2,wrap32_sub_right,Int.sub_self]
    refine ⟨fun ⟨_,hlag⟩ => ?_,fun hlt => ?_⟩
    · have hself : wrap32 last=last := (sub_eq_zero.mp hlag.symm).symm
      have hlt := wrap32_lt last
      omega
    · have hlag := wrap32_of_range (x := last-baselineOf earlier) (by omega) (by omega)
      have hself := wrap32_of_range (x := last) (by omega) (by omega)
      rw [hself,Int.sub_self]
      exact ⟨isLeast_concat_of_le fun d hd => (by omega : last≤_).trans (hleast.2 hd),rfl⟩

/-- One more frame keeps the closed form. -/
theorem exact_iff_of_isLeast (hleast : IsLeast {d | d∈earlier} (baselineOf earlier))
    (hb0 : 0≤baselineOf earlier) (hb : baselineOf earlier<2^31) (hlast : 0≤last) :
    Exact earlier last ↔ ∀ d∈earlier, last<d+2^31 ∧ (d=0 → last=0) := by
  by_cases hzero : baselineOf earlier=0
  · rw [hzero] at hleast
    rw [exact_iff_of_zero hleast hzero hlast]
    refine ⟨fun h d hd => ⟨?_,fun _ => h⟩,fun h => (h 0 hleast.1).2 rfl⟩
    have hle : 0≤d := hleast.2 hd
    omega
  · rw [exact_iff_of_pos hleast (by omega) hb hlast]
    refine ⟨fun h d hd => ?_,fun h => (h _ hleast.1).1⟩
    have hle : baselineOf earlier≤d := hleast.2 hd
    omega

/-- The first frame. -/
theorem exact_nil_iff : Exact [] last ↔ last<2^31 ∧ -(2^31)≤last := by
  unfold Exact
  rw [baselineOf_concat,nextBaseline,if_neg fun h => h.1 rfl,wrap32_sub_right,Int.sub_self]
  refine ⟨fun ⟨_,hlag⟩ => ?_,fun ⟨hlt,hle⟩ => ?_⟩
  · have hself : wrap32 last=last := (sub_eq_zero.mp hlag.symm).symm
    exact hself ▸ ⟨wrap32_lt last,neg_le_wrap32 last⟩
  · rw [wrap32_of_range hle hlt,Int.sub_self]
    exact ⟨isLeast_concat_of_le fun d hd => absurd hd not_mem_nil,rfl⟩

/-- The condition with one more frame. -/
theorem baselineKept_concat_iff (earlier : List ℤ) (last : ℤ) :
    BaselineKept (earlier++[last]) ↔ BaselineKept earlier ∧
      (∀ d∈earlier, last<d+2^31 ∧ (d=0 → last=0)) ∧
      (earlier=[] → last<2^31) := by
  unfold BaselineKept
  rw [pairwise_append]
  cases earlier with
  | nil => simp
  | cons first earlier =>
    simp only [cons_append,List.head?_cons,pairwise_singleton,mem_singleton,
      forall_eq,true_and,reduceCtorEq,false_imp_iff,and_true]
    tauto

/-- Under the condition, the shortest duration is an int. -/
theorem BaselineKept.least_lt {least : ℤ} (hkept : BaselineKept durations)
    (hleast : IsLeast {d | d∈durations} least) : least<2^31 := by
  cases durations with
  | nil => exact absurd hleast.1 not_mem_nil
  | cons first durations => exact (hleast.2 mem_cons_self).trans_lt (hkept.2 first rfl)

/-- Under the condition, the closed form holds after every frame. -/
theorem forall_exact_iff (h : ∀ d∈durations, 0≤d) :
    (∀ earlier last, earlier++[last] <+: durations→Exact earlier last) ↔
      BaselineKept durations := by
  induction durations using List.reverseRecOn with
  | nil =>
    refine iff_of_true (fun earlier last hinit => ?_) ⟨List.Pairwise.nil,nofun⟩
    exact absurd (prefix_nil.mp hinit) (by simp)
  | append_singleton before final ih =>
    have hbefore : ∀ d∈before, 0≤d := fun d hd => h d (mem_append_left _ hd)
    have hfinal : 0≤final := h final (by simp)
    have hprefixes : (∀ earlier last, earlier++[last] <+: before++[final] → Exact earlier last) ↔
        (∀ earlier last, earlier++[last] <+: before→Exact earlier last) ∧ Exact before final := by
      refine ⟨fun hall => ⟨fun earlier last hinit =>
        hall earlier last (hinit.trans (prefix_append _ _)),
          hall before final (prefix_refl _)⟩,fun ⟨hall,hexact⟩ earlier last hinit => ?_⟩
      rcases prefix_concat_iff.mp hinit with heq | hinit
      · obtain ⟨hbefore,hlast⟩ := append_inj' heq rfl
        rw [hbefore,singleton_inj.mp hlast]
        exact hexact
      · exact hall earlier last hinit
    rw [hprefixes,ih hbefore,baselineKept_concat_iff]
    refine and_congr_right fun hkept => ?_
    rcases eq_nil_or_concat' before with rfl | ⟨earlier,last,rfl⟩
    · rw [exact_nil_iff]
      simp
      omega
    · have hleast := ((ih hbefore).mpr hkept earlier last (prefix_refl _)).1
      have hb0 : 0≤baselineOf (earlier++[last]) := hbefore _ hleast.1
      rw [exact_iff_of_isLeast hleast hb0 (hkept.least_lt hleast) hfinal]
      simp

/-- The timestamp received last is always the largest. Where all durations are
ints, the statistics have their closed form after the last sync exactly if that
took no time or every sync took some. They have it after each sync exactly under
the condition. -/
theorem handleSyncs_closedForm_iff (hjoined : Joined joined user)
    {earlier : List (SyncCall H)} {last : SyncCall H}
    (h : AcceptedSyncs joined (earlier++[last])) :
    (∃ user', handleSyncs (earlier++[last]) user=some user' ∧ Latest earlier last user' ∧
      ((∀ sync∈earlier++[last], sync.duration<2^31) → (ClosedForm earlier last user' ↔
          (0∈(earlier++[last]).map SyncCall.duration → last.duration=0)))) ∧
    ((∀ before final, before++[final] <+: earlier++[last]→∃ user',
      handleSyncs (before++[final]) user=some user' ∧ ClosedForm before final user') ↔
        BaselineKept ((earlier++[last]).map SyncCall.duration)) := by
  have harrived : ∀ d∈(earlier++[last]).map SyncCall.duration, 0≤d := by
    intro d hd
    obtain ⟨sync,hsync,rfl⟩ := mem_map.mp hd
    exact h.arrived sync hsync
  constructor
  · obtain ⟨user',hrun,hlatest,hclosed⟩ := handleSyncs_closedForm hjoined h
    refine ⟨user',hrun,hlatest,fun hint => ?_⟩
    have hbounds : ∀ d∈(earlier++[last]).map SyncCall.duration, 0≤d ∧ d<2^31 := by
      intro d hd
      refine ⟨harrived d hd,?_⟩
      obtain ⟨sync,hsync,rfl⟩ := mem_map.mp hd
      exact hint sync hsync
    rw [map_append,map_singleton] at hbounds ⊢
    rw [hclosed,exact_iff hbounds]
  · rw [←forall_exact_iff harrived]
    refine ⟨fun hall before final hinit => ?_,fun hall before final hinit => ?_⟩
    · obtain ⟨first,hfirst,hmap⟩ := prefix_map_iff.mp hinit
      obtain ⟨before',final',rfl,rfl,hfinal⟩ := map_eq_append_iff.mp hmap.symm
      obtain ⟨sync,rfl,rfl⟩ := map_eq_singleton_iff.mp hfinal
      obtain ⟨user',hrun,hclosedForm⟩ := hall before' sync hfirst
      obtain ⟨user'',hrun',-,hclosed⟩ := handleSyncs_closedForm hjoined (h.of_prefix hfirst)
      rw [hrun] at hrun'
      exact hclosed.mp (Option.some.inj hrun' ▸ hclosedForm)
    · obtain ⟨user',hrun,-,hclosed⟩ := handleSyncs_closedForm hjoined (h.of_prefix hinit)
      refine ⟨user',hrun,hclosed.mpr (hall _ _ ?_)⟩
      have hmap := hinit.map SyncCall.duration
      rwa [map_append] at hmap

/-- A sync for the first frame, which was sent at time 0. -/
def syncAt (now : ℤ) : SyncCall Empty :=
  ⟨{ bareEnvironment with timestampCurrent := now },[48],[]⟩

theorem acceptedSyncs_syncAt : AcceptedSyncs 0 ([syncAt 0]++[syncAt 1]) where
  ordered := by decide
  sane := by decide
  sent := by decide
  arrived := by decide
  handlers := by
    intro sync hsync handler
    exact handler.elim

/-- Two syncs, the first of which arrives at once. -/
theorem handleSyncs_closedForm_iff_syncAt :
    ∃ user', handleSyncs ([syncAt 0]++[syncAt 1]) (guacUserAlloc 0)=some user' ∧
      Latest [syncAt 0] (syncAt 1) user' := by
  obtain ⟨⟨user',hrun,hlatest,-⟩,-⟩ :=
    handleSyncs_closedForm_iff (joined_guacUserAlloc 0) acceptedSyncs_syncAt
  exact ⟨user',hrun,hlatest⟩

/-- The second of two syncs, of which the first arrives at once and the second
after 1 ms, makes 1 the baseline, although 0 has been measured. -/
theorem handleSyncs_not_closedForm : AcceptedSyncs 0 ([syncAt 0]++[syncAt 1]) ∧
      ∃ user', handleSyncs ([syncAt 0]++[syncAt 1]) (guacUserAlloc 0)=some user' ∧
        user'.lastFrameDuration=1 ∧ ¬ ClosedForm [syncAt 0] (syncAt 1) user' := by
  refine ⟨acceptedSyncs_syncAt,_,rfl,rfl,fun hclosed => ?_⟩
  have hle : (1 : ℤ)≤0 := hclosed.baseline.2 (by decide)
  exact absurd hle (by decide)

end GuacServer.UserHandlers
