import Mathlib.Algebra.Order.Floor.Div
import Mathlib.Tactic.Ring

/-!
# Positions of resampled audio

Interleaved samples are taken from a stream with another rate and another number of
channels. A sample of the output is the one at its position in the input, which lies in
the last frame that has begun. Frames are repeated when the rate is raised, so positions
may go back within a frame, but never behind the beginning of one.
-/

namespace GuacServer.Resampling

/-- The rates and channels of the input and the output. -/
structure Conversion where
  /-- Frames of the input per second. -/
  inRate : ℕ
  /-- Frames of the output per second. -/
  outRate : ℕ
  /-- Samples in a frame of the input. -/
  inChannels : ℕ
  /-- Samples in a frame of the output. -/
  outChannels : ℕ

variable (c : Conversion)

/-- The frame of the input for a sample of the output. -/
def Conversion.frame (sample : ℕ) : ℕ := sample/c.outChannels*c.inRate/c.outRate

/-- The channel of the input for a sample of the output. -/
def Conversion.channel (sample : ℕ) : ℕ := min (sample%c.outChannels) (c.inChannels-1)

/-- The sample of the input for a sample of the output. -/
def Conversion.position (sample : ℕ) : ℕ := c.frame sample*c.inChannels+c.channel sample

/-- The frames of the output that are taken from so many samples of the input. -/
def Conversion.framesOf (samples : ℕ) : ℕ := (samples ⌈/⌉ c.inChannels*c.outRate) ⌈/⌉ c.inRate

/-- A position of the input where a frame ends, or where any sample does if frames are
not repeated channel by channel. -/
def Conversion.Boundary (samples : ℕ) : Prop :=
  c.inChannels ∣ samples ∨ c.outChannels=1 ∨ c.outRate≤c.inRate

instance (samples : ℕ) : Decidable (c.Boundary samples) := inferInstanceAs (Decidable (_ ∨ _))

variable {c}

theorem Conversion.frame_mono {sample later : ℕ} (h : sample≤later) :
    c.frame sample≤c.frame later :=
  Nat.div_le_div_right (Nat.mul_le_mul_right _ (Nat.div_le_div_right h))

theorem Conversion.le_position (sample : ℕ) : c.frame sample*c.inChannels≤c.position sample :=
  Nat.le_add_right _ _

theorem Conversion.position_lt (hin : 0<c.inChannels) (sample : ℕ) :
    c.position sample<(c.frame sample+1)*c.inChannels := by
  have hchannel : c.channel sample≤c.inChannels-1 := Nat.min_le_right _ _
  rw [Conversion.position,Nat.add_mul,Nat.one_mul]
  omega

/-- Without repeated frames, every frame of the output has a later frame of the input. -/
theorem Conversion.frame_lt (hout : 0<c.outRate) (hrate : c.outRate≤c.inRate)
    {sample later : ℕ} (h : sample/c.outChannels<later/c.outChannels) :
    c.frame sample<c.frame later := by
  have hstep : (sample/c.outChannels+1)*c.inRate≤later/c.outChannels*c.inRate :=
    Nat.mul_le_mul_right _ h
  calc c.frame sample+1
      = (sample/c.outChannels*c.inRate+c.outRate)/c.outRate := by
        rw [Nat.add_div_right _ hout,Conversion.frame]
    _ ≤ (sample/c.outChannels*c.inRate+c.inRate)/c.outRate :=
        Nat.div_le_div_right (Nat.add_le_add_left hrate _)
    _ = (sample/c.outChannels+1)*c.inRate/c.outRate := by rw [Nat.add_mul,Nat.one_mul]
    _ ≤ c.frame later := Nat.div_le_div_right hstep

/-- Positions do not go back unless frames are repeated channel by channel. -/
theorem Conversion.position_mono (hout : 0<c.outRate) (hin : 0<c.inChannels)
    (h : c.outChannels=1 ∨ c.outRate≤c.inRate) {sample later : ℕ} (hle : sample≤later) :
    c.position sample≤c.position later := by
  rcases h with hmono | hrate
  · simp only [Conversion.position,Conversion.channel,hmono,Nat.mod_one,Nat.zero_min,Nat.add_zero]
    exact Nat.mul_le_mul_right _ (Conversion.frame_mono hle)
  · rcases Nat.lt_or_eq_of_le (Nat.div_le_div_right (c := c.outChannels) hle) with hlt | heq
    · calc c.position sample
          ≤ (c.frame sample+1)*c.inChannels := (Conversion.position_lt hin sample).le
        _ ≤ c.frame later*c.inChannels :=
            Nat.mul_le_mul_right _ (Conversion.frame_lt hout hrate hlt)
        _ ≤ c.position later := Conversion.le_position later
    · have hmod : sample%c.outChannels≤later%c.outChannels := by
        have hsample := Nat.div_add_mod sample c.outChannels
        have hlater := Nat.div_add_mod later c.outChannels
        rw [heq] at hsample
        omega
      rw [Conversion.position,Conversion.position,Conversion.frame,Conversion.frame,heq]
      exact Nat.add_le_add_left (min_le_min_right _ hmod) _

/-- Once a position lies behind a boundary, all later ones do. -/
theorem Conversion.Boundary.le_position {samples : ℕ} (h : c.Boundary samples)
    (hout : 0<c.outRate) (hin : 0<c.inChannels) {sample later : ℕ}
    (hsample : samples≤c.position sample) (hle : sample≤later) :
    samples≤c.position later := by
  rcases h with ⟨frames,rfl⟩ | h
  · have hframe : frames<c.frame sample+1 := by
      by_contra hge
      have hlt := Conversion.position_lt hin sample
      have hmul := Nat.mul_le_mul_left c.inChannels (Nat.le_of_not_lt hge)
      rw [Nat.mul_comm c.inChannels (c.frame sample+1)] at hmul
      omega
    calc c.inChannels*frames
        ≤ c.inChannels*c.frame later :=
          Nat.mul_le_mul_left _ ((Nat.le_of_lt_succ hframe).trans (Conversion.frame_mono hle))
      _ = c.frame later*c.inChannels := Nat.mul_comm _ _
      _ ≤ c.position later := Conversion.le_position later
  · exact hsample.trans (Conversion.position_mono hout hin h hle)

theorem Conversion.framesOf_mono (hin : 0<c.inChannels) (hrate : 0<c.inRate)
    {samples more : ℕ} (h : samples ≤ more) : c.framesOf samples≤c.framesOf more := by
  have hframes : samples ⌈/⌉ c.inChannels ≤ more ⌈/⌉ c.inChannels := by
    rw [ceilDiv_le_iff_le_mul hin]
    exact h.trans ((ceilDiv_le_iff_le_mul hin).mp le_rfl)
  rw [Conversion.framesOf,Conversion.framesOf,ceilDiv_le_iff_le_mul hrate]
  exact (Nat.mul_le_mul_right _ hframes).trans ((ceilDiv_le_iff_le_mul hrate).mp le_rfl)

/-- What lies within the first samples of the input is in the first frames of the output. -/
theorem Conversion.lt_framesOf (hout : 0<c.outRate) (hin : 0<c.inChannels)
    (hrate : 0<c.inRate) {samples sample : ℕ} (h : c.position sample<samples) :
    sample/c.outChannels<c.framesOf samples := by
  by_contra hge
  have hframes : samples ⌈/⌉ c.inChannels*c.outRate ≤ sample/c.outChannels*c.inRate := by
    calc samples ⌈/⌉ c.inChannels*c.outRate
        ≤ c.inRate*c.framesOf samples := (ceilDiv_le_iff_le_mul hrate).mp le_rfl
      _ ≤ c.inRate*(sample/c.outChannels) := Nat.mul_le_mul_left _ (Nat.le_of_not_lt hge)
      _ = sample/c.outChannels*c.inRate := Nat.mul_comm _ _
  have hframe : samples ⌈/⌉ c.inChannels≤c.frame sample := (Nat.le_div_iff_mul_le hout).mpr hframes
  have hle : samples≤c.position sample := by
    calc samples
        ≤ c.inChannels*(samples ⌈/⌉ c.inChannels) := (ceilDiv_le_iff_le_mul hin).mp le_rfl
      _ ≤ c.inChannels*c.frame sample := Nat.mul_le_mul_left _ hframe
      _ = c.frame sample*c.inChannels := Nat.mul_comm _ _
      _ ≤ c.position sample := Conversion.le_position sample
  omega

/-- The position of a sample up to the end of so many frames. -/
theorem Conversion.position_le (hin : 0<c.inChannels) (hout : 0<c.outChannels)
    {sample frames : ℕ} (h : sample≤frames*c.outChannels) :
    c.position sample<(frames*c.inRate/c.outRate+1)*c.inChannels := by
  have hframe : sample/c.outChannels≤frames := by
    calc sample/c.outChannels
        ≤ frames*c.outChannels/c.outChannels := Nat.div_le_div_right h
      _ = frames := Nat.mul_div_cancel _ hout
  calc c.position sample
      < (c.frame sample+1)*c.inChannels := Conversion.position_lt hin sample
    _ ≤ (frames*c.inRate/c.outRate+1)*c.inChannels :=
        Nat.mul_le_mul_right _ (Nat.add_le_add_right
          (Nat.div_le_div_right (Nat.mul_le_mul_right _ hframe)) 1)

end GuacServer.Resampling
