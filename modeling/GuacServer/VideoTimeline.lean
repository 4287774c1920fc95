import Mathlib.Algebra.Order.Group.Abs
import Mathlib.Data.List.Chain
import GuacServer.DecimalNumerals

/-!
# The timeline of an encoded video

Each sync of a recording flushes the frames for the time since the previous one
and then prepares the display as the next frame. Milliseconds become frames and
frames become milliseconds in ints, whose overflow is undefined. As long as the
frames between two syncs fit these, the timeline stays a whole number of frames
behind the recording by less than one frame, over any number of syncs.
-/

namespace GuacServer.VideoTimeline

open DecimalNumerals List

/-- The framerate of the video, in frames per second. -/
def guacencVideoFramerate : ℤ := 25

/-- The result of an operation on 64-bit timestamps, unless it overflows. -/
def checked64 (value : ℤ) : Option ℤ :=
  if -(2^63)≤value ∧ value<2^63 then some value else none

/-- Values within the 64-bit range are results. -/
theorem checked64_of_range {x : ℤ} (h0 : -(2^63)≤x) (h1 : x<2^63) :
    checked64 x=some x := if_pos ⟨h0,h1⟩

variable {φ : Type}

/-- A frame handed to the encoder. -/
structure Written (φ : Type*) where
  pts : ℤ
  image : φ
  deriving DecidableEq

/-- A video being encoded, with the frames its encoder has taken so far. -/
structure Video (φ : Type*) where
  lastTimestamp : ℤ
  nextPts : ℤ
  nextFrame : φ
  written : List (Written φ)

/-- The output of a display and the timestamp of its last sync. -/
structure Display (φ : Type*) where
  lastSync : ℤ
  output : Video φ

/-- A sync of the recording: its timestamp, and the default layer's frame once
flattened, if it has pixels and can be converted. -/
structure Sync (φ : Type*) where
  timestamp : ℤ
  frame : Option φ

/-- A new video, whose next frame is blank. -/
def guacencVideoAlloc (blank : φ) : Video φ := ⟨0,0,blank,[]⟩

/-- A new display. -/
def guacencDisplayAlloc (blank : φ) : Display φ := ⟨0,guacencVideoAlloc blank⟩

/-- Hand one frame to the encoder, which answers with a negative value if it fails. -/
def guacencVideoWriteFrame (encode : Written φ→ℤ) (frame : φ) (video : Video φ) : ℤ×Video φ :=
  let got := encode ⟨video.nextPts,frame⟩
  if got<0 then (-1,video)
  else (got,
    { video with
      nextPts := video.nextPts+1
      written := video.written++[⟨video.nextPts,frame⟩] })

/-- Hand the prepared frame to the encoder. -/
def guacencVideoFlushFrame (encode : Written φ→ℤ) (video : Video φ) : Bool×Video φ :=
  let (result,video) := guacencVideoWriteFrame encode video.nextFrame video
  (decide (result<0),video)

/-- The loop that flushes the prepared frame, at least once, until `--elapsed` is
zero. -/
def flushFrames (encode : Written φ→ℤ) (elapsed : ℤ) (video : Video φ) : Option (Bool×Video φ) :=
  let (failed,video) := guacencVideoFlushFrame encode video
  if failed then some (true,video)
  else
    match _hrest : checked (elapsed-1) with
    | none => none
    | some rest => if rest=0 then some (false,video) else flushFrames encode rest video
termination_by (elapsed+2^31).toNat
decreasing_by
  obtain ⟨hrange,rfl⟩ := checked_eq_some.mp _hrest
  omega

/-- Flush the frames that the time up to the timestamp takes. There is no result
where an operation on ints or timestamps overflows. -/
def guacencVideoAdvanceTimeline (encode : Written φ→ℤ) (timestamp : ℤ) (video : Video φ) :
    Option (Bool×Video φ) :=
  if video.lastTimestamp≠0 then do
    let difference ← checked64 (timestamp-video.lastTimestamp)
    let product ← checked64 (difference*guacencVideoFramerate)
    let elapsed := wrap32 (product.tdiv 1000)
    if elapsed=0 then some (false,video)
    else
      let milliseconds ← checked (elapsed*1000)
      let nextTimestamp ←
        checked64 (video.lastTimestamp+milliseconds.tdiv guacencVideoFramerate)
      let (failed,video) ← flushFrames encode elapsed video
      if failed then some (true,video)
      else some (false,{ video with lastTimestamp := nextTimestamp })
  else some (false,{ video with lastTimestamp := timestamp })

/-- Take the buffer as the next frame, unless there is nothing to take. -/
def guacencVideoPrepareFrame (frame : Option φ) (video : Video φ) : Video φ :=
  { video with nextFrame := frame.getD video.nextFrame }

/-- Handle one sync: refuse a decreasing timestamp, advance the timeline, and
prepare the flattened display for the next flush. -/
def guacencDisplaySync (encode : Written φ→ℤ) (sync : Sync φ) (display : Display φ) :
    Option (Bool×Display φ) :=
  if sync.timestamp<display.lastSync then some (true,display)
  else do
    let (failed,output) ← guacencVideoAdvanceTimeline encode sync.timestamp display.output
    if failed then some (true,⟨sync.timestamp,output⟩)
    else some (false,⟨sync.timestamp,guacencVideoPrepareFrame sync.frame output⟩)

/-- The display after every sync of a recording. -/
def afterSyncs (encode : Written φ→ℤ) (syncs : List (Sync φ)) (display : Display φ) :
    Option (Display φ) :=
  syncs.foldlM (fun display sync => (guacencDisplaySync encode sync display).map Prod.snd) display

/-- What the recording shows at a time: the last frame of a sync up to it. -/
def shown (blank : φ) (syncs : List (Sync φ)) (time : ℤ) : φ :=
  ((syncs.filter (·.timestamp≤time)).filterMap (·.frame)).getLastD blank

/-- The time of the recording that a frame of the video stands for. -/
def displayTime (start : ℤ) (k : ℕ) : ℤ := start+k*1000/guacencVideoFramerate

/-- The whole frames from the start of the recording to a time. -/
def framesUntil (start time : ℤ) : ℤ := (time-start)*guacencVideoFramerate/1000

/-- The video keeps the recording's time: it has one frame for each whole frame
up to the last sync, and each shows the recording within a frame of its time. -/
structure KeepsTime (blank : φ) (start last : ℤ) (syncs : List (Sync φ)) (video : Video φ) :
    Prop where
  count : (video.written.length : ℤ)=framesUntil start last
  frames : ∀ (k : ℕ) frame, video.written[k]? = some frame → frame.pts=k ∧
    ∃ time, |time-displayTime start k| ≤ 1000/guacencVideoFramerate ∧
      frame.image=shown blank syncs time

/-- The frames between any two syncs in a row fit the conversion back to
milliseconds. -/
def GapsFit (start : ℤ) (syncs : List (Sync φ)) : Prop :=
  syncs.IsChain fun a b =>
    framesUntil start b.timestamp-framesUntil start a.timestamp≤2147483

section Flushing

variable {encode : Written φ→ℤ} (hencode : ∀ frame, 0≤encode frame)
include hencode

/-- A frame the encoder takes is added under the next number. -/
theorem flushFrame_eq (video : Video φ) : guacencVideoFlushFrame encode video=(false,
      { video with
        nextPts := video.nextPts+1
        written := video.written++[⟨video.nextPts,video.nextFrame⟩] }) := by
  have hgot := hencode ⟨video.nextPts,video.nextFrame⟩
  unfold guacencVideoFlushFrame guacencVideoWriteFrame
  rw [if_neg (by omega)]
  simp only [decide_eq_false (not_lt.mpr hgot)]

/-- The loop writes the prepared frame as often as it is asked to. -/
theorem flushFrames_eq {n : ℕ} (hpos : 0<n) (hn : n<2^31) (video : Video φ) :
    flushFrames encode n video=some (false,
      { video with
        nextPts := video.nextPts+n
        written := video.written++
          (List.range n).map fun i : ℕ => ⟨video.nextPts+i,video.nextFrame⟩ }) := by
  induction n generalizing video with
  | zero => exact absurd hpos (Nat.lt_irrefl 0)
  | succ n ih =>
    have hless : checked ((n+1 : ℕ)-1)=some (n : ℤ) :=
      checked_eq_some.mpr ⟨⟨by omega,by omega⟩,by omega⟩
    rw [flushFrames,flushFrame_eq hencode]
    dsimp only
    rw [if_neg Bool.false_ne_true]
    split
    · next hnone => cases hless.symm.trans hnone
    next rest hsome =>
    cases hless.symm.trans hsome
    rcases Nat.eq_zero_or_pos n with rfl | hrest
    · rw [if_pos Nat.cast_zero]
      simp
    · rw [if_neg (by omega),ih hrest (by omega)]
      simp only [range_succ_eq_map,map_cons,map_map,append_assoc,
        singleton_append,Nat.cast_succ,Nat.cast_zero,add_zero,Function.comp_def]
      congr 3
      · ring
      · congr 3
        funext i
        congr 1
        ring

/-- A timeline that lags by few enough frames catches up with the timestamp to
less than a frame. -/
theorem advanceTimeline_eq {timestamp : ℤ} {video : Video φ} {n : ℕ}
    (hlast : 0<video.lastTimestamp) (hle : video.lastTimestamp≤timestamp)
    (hrange : timestamp<2^63) (hn : (n : ℤ)=(timestamp-video.lastTimestamp)/40)
    (hfits : n≤2147483) :
    guacencVideoAdvanceTimeline encode timestamp video=some (false,
      { video with
        lastTimestamp := video.lastTimestamp+40*n
        nextPts := video.nextPts+n
        written := video.written++
          (List.range n).map fun i : ℕ => ⟨video.nextPts+i,video.nextFrame⟩ }) := by
  have hdifference : checked64 (timestamp-video.lastTimestamp)=
      some (timestamp-video.lastTimestamp) := checked64_of_range (by omega) (by omega)
  have hproduct : checked64 ((timestamp-video.lastTimestamp)*guacencVideoFramerate)=
      some ((timestamp-video.lastTimestamp)*guacencVideoFramerate) := by
    unfold guacencVideoFramerate
    exact checked64_of_range (by omega) (by omega)
  have helapsed : wrap32 (((timestamp-video.lastTimestamp)*guacencVideoFramerate).tdiv 1000)=n := by
    unfold guacencVideoFramerate
    rw [Int.tdiv_eq_ediv_of_nonneg (by omega),wrap32_of_range (by omega) (by omega)]
    omega
  have hmilliseconds : checked ((n : ℤ)*1000)=some ((n : ℤ)*1000) :=
    checked_eq_some.mpr ⟨⟨by omega,by omega⟩,rfl⟩
  have hnext : checked64 (video.lastTimestamp+((n : ℤ)*1000).tdiv guacencVideoFramerate)=
      some (video.lastTimestamp+40*n) := by
    unfold guacencVideoFramerate
    have hvalue : video.lastTimestamp+((n : ℤ)*1000).tdiv 25=video.lastTimestamp+40*n := by
      rw [Int.tdiv_eq_ediv_of_nonneg (by omega)]
      omega
    rw [hvalue]
    exact checked64_of_range (by omega) (by omega)
  unfold guacencVideoAdvanceTimeline
  rw [if_pos hlast.ne',hdifference,Option.bind_eq_bind,Option.bind_some,hproduct,Option.bind_some]
  dsimp only
  rw [helapsed]
  rcases Nat.eq_zero_or_pos n with rfl | hpos
  · rw [if_pos Nat.cast_zero]
    simp
  · rw [if_neg (by omega),hmilliseconds,Option.bind_some,hnext,Option.bind_some,
      flushFrames_eq hencode hpos (by omega)]
    rfl

end Flushing

/-- A sync whose timestamp does not decrease advances the timeline and prepares its
frame. -/
theorem displaySync_eq {encode : Written φ→ℤ} {sync : Sync φ} {display : Display φ}
    {output : Video φ} (hle : display.lastSync ≤ sync.timestamp)
    (hadvance : guacencVideoAdvanceTimeline encode sync.timestamp display.output=
      some (false,output)) :
    guacencDisplaySync encode sync display=
      some (false,⟨sync.timestamp,guacencVideoPrepareFrame sync.frame output⟩) := by
  unfold guacencDisplaySync
  rw [if_neg (not_lt.mpr hle),hadvance]
  rfl

section Shown

variable {blank : φ} {syncs : List (Sync φ)} {sync : Sync φ} {time : ℤ}

/-- A later sync changes nothing that was shown before it. -/
theorem shown_before (h : time<sync.timestamp) :
    shown blank (syncs++[sync]) time=shown blank syncs time := by
  unfold shown
  rw [filter_append,filter_cons_of_neg (by simpa using h),filter_nil,append_nil]

/-- After the last sync, everything up to it has been shown. -/
theorem shown_after (h : ∀ s∈syncs, s.timestamp≤time) :
    shown blank syncs time=(syncs.filterMap (·.frame)).getLastD blank := by
  unfold shown
  rw [filter_eq_self.mpr fun s hs => by simpa using h s hs]

/-- A sync shows its own frame, or what was shown before if it has none. -/
theorem shown_append (h : ∀ s∈syncs, s.timestamp ≤ sync.timestamp) :
    shown blank (syncs++[sync]) sync.timestamp=
      sync.frame.getD (shown blank syncs sync.timestamp) := by
  have hall : ∀ s∈syncs++[sync], s.timestamp ≤ sync.timestamp := by
    intro s hs
    rcases mem_append.mp hs with hs | hs
    · exact h s hs
    · rw [mem_singleton.mp hs]
  rw [shown_after hall,shown_after h,filterMap_append]
  cases hframe : sync.frame with
  | none => simp [hframe]
  | some frame => simp [hframe]

end Shown

/-- What holds of the display after the syncs of a recording. Frame `k` shows the
recording as it is at the end of the frame's time. -/
structure Keeping (blank : φ) (start last : ℤ) (syncs : List (Sync φ)) (display : Display φ) :
    Prop where
  sync : display.lastSync=last
  upTo : ∀ s∈syncs, s.timestamp≤last
  position : display.output.lastTimestamp=start+40*display.output.written.length
  count : (display.output.written.length : ℤ)=(last-start)/40
  pts : display.output.nextPts=display.output.written.length
  next : display.output.nextFrame=shown blank syncs last
  frames : ∀ (k : ℕ) frame, display.output.written[k]? = some frame → frame.pts=k ∧
    frame.image=shown blank syncs (start+40*k+39)

/-- A display that keeps track keeps the recording's time. -/
theorem Keeping.keepsTime {blank : φ} {start last : ℤ} {syncs : List (Sync φ)}
    {display : Display φ} (h : Keeping blank start last syncs display) :
    KeepsTime blank start last syncs display.output := by
  refine ⟨?_,fun k frame hframe => ?_⟩
  · rw [h.count]
    unfold framesUntil guacencVideoFramerate
    omega
  · obtain ⟨hpts,himage⟩ := h.frames k frame hframe
    refine ⟨hpts,start+40*k+39,?_,himage⟩
    unfold displayTime guacencVideoFramerate
    rw [abs_le]
    constructor <;> omega

/-- The first sync starts the timeline. -/
theorem keeping_first (encode : Written φ→ℤ) (blank : φ) {first : Sync φ}
    (hfirst : 0<first.timestamp) :
    ∃ display, guacencDisplaySync encode first (guacencDisplayAlloc blank)=some (false,display) ∧
      Keeping blank first.timestamp first.timestamp [first] display := by
  have hadvance : guacencVideoAdvanceTimeline encode first.timestamp
      (guacencDisplayAlloc blank).output=some (false,⟨first.timestamp,0,blank,[]⟩) := rfl
  refine ⟨_,displaySync_eq (le_of_lt hfirst) hadvance,?_⟩
  refine ⟨rfl,fun s hs => ?_,?_,?_,rfl,?_,fun k frame hframe => ?_⟩
  · rw [mem_singleton.mp hs]
  · simp [guacencVideoPrepareFrame]
  · simp [guacencVideoPrepareFrame]
  · have hnow : shown blank ([]++[first]) first.timestamp=
        first.frame.getD (shown blank [] first.timestamp) :=
      shown_append fun s hs => absurd hs not_mem_nil
    exact hnow.symm
  · cases hframe

/-- Each further sync, within few enough frames, keeps track. -/
theorem Keeping.sync_step {encode : Written φ→ℤ} (hencode : ∀ frame, 0≤encode frame)
    {blank : φ} {start last : ℤ} {syncs : List (Sync φ)} {display : Display φ}
    (h : Keeping blank start last syncs display) (hstart : 0<start) {sync : Sync φ}
    (hle : last ≤ sync.timestamp) (hfrom : start≤last) (hrange : sync.timestamp<2^63)
    (hgap : framesUntil start sync.timestamp-framesUntil start last≤2147483) :
    ∃ next, guacencDisplaySync encode sync display=some (false,next) ∧
      Keeping blank start sync.timestamp (syncs++[sync]) next := by
  have hposition := h.position
  have hcount := h.count
  unfold framesUntil guacencVideoFramerate at hgap
  obtain ⟨n,hn⟩ := Int.eq_ofNat_of_zero_le
    (show 0≤(sync.timestamp-display.output.lastTimestamp)/40 by omega)
  have hupTo : ∀ s∈syncs, s.timestamp ≤ sync.timestamp := fun s hs => (h.upTo s hs).trans hle
  refine ⟨_,displaySync_eq (h.sync.trans_le hle)
    (advanceTimeline_eq hencode (by omega) (by omega) hrange hn.symm (by omega)),?_⟩
  refine ⟨rfl,fun s hs => ?_,?_,?_,?_,?_,fun k frame hframe => ?_⟩
  · rcases mem_append.mp hs with hs | hs
    · exact hupTo s hs
    · rw [mem_singleton.mp hs]
  · simp only [guacencVideoPrepareFrame,length_append,length_map,length_range]
    push_cast
    omega
  · simp only [guacencVideoPrepareFrame,length_append,length_map,length_range]
    push_cast
    omega
  · simp only [guacencVideoPrepareFrame,length_append,length_map,length_range]
    rw [h.pts]
    push_cast
    rfl
  · simp only [guacencVideoPrepareFrame]
    rw [shown_append hupTo,h.next,shown_after h.upTo,shown_after hupTo]
  · simp only [guacencVideoPrepareFrame] at hframe
    rcases Nat.lt_or_ge k display.output.written.length with hk | hk
    · rw [List.getElem?_append_left hk] at hframe
      obtain ⟨hpts,himage⟩ := h.frames k frame hframe
      refine ⟨hpts,?_⟩
      rw [himage,shown_before (by omega)]
    · rw [List.getElem?_append_right hk,List.getElem?_map,Option.map_eq_some_iff] at hframe
      obtain ⟨i,hi,rfl⟩ := hframe
      obtain ⟨hlt,rfl⟩ := List.getElem?_eq_some_iff.mp hi
      rw [length_range] at hlt
      rw [getElem_range]
      refine ⟨?_,?_⟩
      · rw [h.pts]
        dsimp only
        omega
      · dsimp only
        rw [h.next,shown_before (by omega),shown_after h.upTo,
          shown_after fun s hs => (h.upTo s hs).trans (by omega)]

/-- The display keeps track from the first sync to the last. -/
theorem keeping_afterSyncs {encode : Written φ→ℤ} (hencode : ∀ frame, 0≤encode frame)
    (blank : φ) {first : Sync φ} (hfirst : 0<first.timestamp) (rest : List (Sync φ))
    (hordered : (first::rest).Pairwise (·.timestamp ≤ ·.timestamp))
    (hrange : ∀ s∈first::rest, s.timestamp<2^63)
    (hgaps : GapsFit first.timestamp (first::rest)) :
    ∃ display, afterSyncs encode (first::rest) (guacencDisplayAlloc blank)=some display ∧
      Keeping blank first.timestamp ((first::rest).getLast (cons_ne_nil _ _)).timestamp
        (first::rest) display := by
  induction rest using List.reverseRecOn with
  | nil =>
    obtain ⟨display,hsync,hkept⟩ := keeping_first encode blank hfirst
    refine ⟨display,?_,hkept⟩
    unfold afterSyncs
    rw [foldlM_cons,hsync]
    rfl
  | append_singleton rest sync ih =>
    simp only [←cons_append] at hordered hrange hgaps ⊢
    obtain ⟨hbefore,-,hlater⟩ := pairwise_append.mp hordered
    obtain ⟨hgapsBefore,-,hgap⟩ := isChain_append.mp hgaps
    have hlast := getLast_mem (cons_ne_nil first rest)
    obtain ⟨display,hsyncs,hkept⟩ :=
      ih hbefore (fun s hs => hrange s (mem_append_left _ hs)) hgapsBefore
    obtain ⟨next,hsync,hnext⟩ := hkept.sync_step hencode hfirst
      (hlater _ hlast sync (mem_singleton_self sync))
      (hkept.upTo first (mem_cons_self ..))
      (hrange sync (mem_append_right _ (mem_singleton_self sync)))
      (hgap _ (List.getLast?_eq_some_getLast _) sync rfl)
    rw [getLast_append_singleton]
    refine ⟨next,?_,hnext⟩
    unfold afterSyncs at hsyncs ⊢
    rw [foldlM_append,hsyncs,Option.bind_eq_bind,Option.bind_some,foldlM_cons,hsync]
    rfl

/-- A recording whose gaps all fit keeps its time in the video, over any number of
syncs: there are as many frames as whole frames have passed since the first
sync, and none shows the recording more than a frame off. -/
theorem video_keepsTime {encode : Written φ→ℤ} (hencode : ∀ frame, 0≤encode frame)
    (blank : φ) {first : Sync φ} (hfirst : 0<first.timestamp) (rest : List (Sync φ))
    (hordered : (first::rest).Pairwise (·.timestamp ≤ ·.timestamp))
    (hrange : ∀ s∈first::rest, s.timestamp<2^63)
    (hgaps : GapsFit first.timestamp (first::rest)) :
    ∃ display, afterSyncs encode (first::rest) (guacencDisplayAlloc blank)=some display ∧
      KeepsTime blank first.timestamp ((first::rest).getLast (cons_ne_nil _ _)).timestamp
        (first::rest) display.output := by
  obtain ⟨display,hsyncs,hkept⟩ :=
    keeping_afterSyncs hencode blank hfirst rest hordered hrange hgaps
  exact ⟨display,hsyncs,hkept.keepsTime⟩

/-- Three syncs, one frame and then a little over two frames apart. -/
theorem video_keepsTime_threeSyncs :
    ∃ display, afterSyncs (fun _ => 0) [⟨1000,some 1⟩,⟨1040,some 2⟩,⟨1125,none⟩]
        (guacencDisplayAlloc 0)=some display ∧
      KeepsTime 0 1000 1125 [⟨1000,some 1⟩,⟨1040,some 2⟩,⟨1125,none⟩] display.output :=
  video_keepsTime (fun _ => Int.le_refl 0) 0 (by decide : 0<(⟨1000,some 1⟩ : Sync ℕ).timestamp)
    [⟨1040,some 2⟩,⟨1125,none⟩] (by decide) (by decide)
    (.cons_cons (by decide) (.cons_cons (by decide) (.singleton _)))

/-- After a gap of a little less than 25 days, the milliseconds of the frames in
between overflow an int, also if they are only computed from there as 40 for each. -/
theorem not_keepsTime : (checked (53687092*40)=none ∧
      afterSyncs (fun _ => 0) [⟨1,none⟩,⟨2147483681,none⟩,⟨2147483681,none⟩]
        (guacencDisplayAlloc ())=none) ∧
    ¬∀ (first : Sync Unit) (rest : List (Sync Unit)), 0<first.timestamp →
      (first::rest).Pairwise (·.timestamp ≤ ·.timestamp) →
      (∀ s∈first::rest, s.timestamp<2^63) →
      ∃ display, afterSyncs (fun _ => 0) (first::rest) (guacencDisplayAlloc ())=some display ∧
        KeepsTime () first.timestamp ((first::rest).getLast (cons_ne_nil _ _)).timestamp
          (first::rest) display.output := by
  have hnone : afterSyncs (fun _ => 0) [⟨1,none⟩,⟨2147483681,none⟩,⟨2147483681,none⟩]
      (guacencDisplayAlloc ())=none := rfl
  refine ⟨⟨rfl,hnone⟩,fun h => ?_⟩
  obtain ⟨display,hsyncs,-⟩ := h ⟨1,none⟩ [⟨2147483681,none⟩,⟨2147483681,none⟩] (by decide)
    (by decide) (by decide)
  rw [hnone] at hsyncs
  cases hsyncs

end GuacServer.VideoTimeline
