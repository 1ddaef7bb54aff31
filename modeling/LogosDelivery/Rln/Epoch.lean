import Mathlib

/-! # Epochs

Time is divided into epochs of `rlnEpochSizeSec` seconds.  A proof carries the epoch of its
message, and a node accepts it while the message's time is at most `rlnMaxTimestampGap` seconds
from its clock.  Times are exact rationals of seconds, and epoch indexes are 64-bit numbers. -/

namespace LogosDelivery.Rln

/-- The kinds of errors of the module. -/
inductive RlnErrorKind where
  | notReady
  | transient
  | budgetExhausted
  | permanent
  deriving DecidableEq, Repr

/-- The name of a kind, as it is printed. -/
def RlnErrorKind.name : RlnErrorKind → String
  | .notReady => "NotReady"
  | .transient => "Transient"
  | .budgetExhausted => "BudgetExhausted"
  | .permanent => "Permanent"

structure RlnError where
  kind : RlnErrorKind
  message : String
  deriving DecidableEq, Repr

/-- The text of an error. -/
def RlnError.text (e : RlnError) : String := e.kind.name ++ ": " ++ e.message

/-- The maximum clock difference between peers in seconds. -/
def maxClockGapSeconds : ℚ := 20

/-- An array of 32 bytes, as the number they are in little-endian order. -/
abbrev Bytes32 := Fin (2 ^ 256)

instance bytes32CountNeZero : NeZero ((2 : ℕ) ^ 256) := ⟨by positivity⟩

abbrev Epoch := Bytes32

/-- The bytes of a 64-bit number, padded with zeros. -/
def toEpoch (t : ℕ) : Epoch := Fin.ofNat _ (t % 2 ^ 64)

/-- The number in the first eight bytes. -/
def fromEpoch (epoch : Epoch) : ℕ := epoch.val % 2 ^ 64

theorem fromEpoch_toEpoch {t : ℕ} (h : t < 2 ^ 64) : fromEpoch (toEpoch t) = t := by
  unfold fromEpoch toEpoch
  rw [Fin.val_ofNat]
  omega

/-- The time parameters of a mounted backend. -/
structure RlnParams where
  rlnEpochSizeSec : ℕ
  rlnMaxEpochGap : ℕ
  rlnMaxTimestampGap : ℕ
  deriving DecidableEq, Repr

namespace RlnParams

/-- The parameters that `mount` derives from the epoch size. -/
def mount (epochSizeSec : ℕ) : RlnParams where
  rlnEpochSizeSec := epochSizeSec
  rlnMaxEpochGap := max ⌊maxClockGapSeconds / epochSizeSec⌋₊ 1
  rlnMaxTimestampGap := ⌊maxClockGapSeconds⌋₊

variable (params : RlnParams)

/-- The absolute epoch index of a time in seconds. -/
def epochIndexOf (t : ℚ) : ℕ := ⌊t / params.rlnEpochSizeSec⌋₊ % 2 ^ 64

/-- The epoch of a time. -/
def calcEpoch (t : ℚ) : Epoch := toEpoch (params.epochIndexOf t)

theorem fromEpoch_calcEpoch (t : ℚ) : fromEpoch (params.calcEpoch t) = params.epochIndexOf t :=
  fromEpoch_toEpoch (Nat.mod_lt _ (by norm_num))

/-- The distance of two times in whole seconds. -/
def timeGap (t u : ℚ) : ℕ := ⌊|t - u|⌋₊

/-- The bound that validators apply, checked by the generators as well. -/
def checkTimestampBounds (now senderEpochTime : ℚ) : Except RlnError Unit :=
  if params.rlnMaxTimestampGap < timeGap now senderEpochTime then
    .error ⟨.permanent, "timestamp is " ++ toString (timeGap now senderEpochTime) ++
      " s from now, beyond the accepted " ++ toString params.rlnMaxTimestampGap ++ " s"⟩
  else .ok ()

end RlnParams

end LogosDelivery.Rln
