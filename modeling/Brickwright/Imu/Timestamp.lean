import Brickwright.Bits.Words
import Brickwright.Bytes.Buffers

/-!
# The time of an IMU sample (`imu_timestamp.h`)

The driver publishes the low 32 bits of a clock of microseconds. The consumer takes the last time up
to its own reading of that clock that has these low bits, and refuses it if it is more than 30
seconds back.
-/

namespace Brickwright.Imu

/-- What the function answers, and what stands behind its pointer then. `out` is what stood there
before, none for `NULL`. -/
def imuTimestampExpand (raw : UInt32) (now : UInt64) (out : Option UInt64) : Bool × Option UInt64 :=
  match out with
  | none => (false, none)
  | some _ =>
    let candidate := (now &&& ~~~0xffffffff) ||| raw.toUInt64
    if candidate > now then
      if candidate < 1 <<< (32 : UInt64) then (false, some 0)
      else fresh (candidate - 1 <<< (32 : UInt64))
    else fresh candidate
where
  fresh (candidate : UInt64) : Bool × Option UInt64 :=
    if now - candidate > 30000000 then (false, some 0) else (true, some candidate)

section

variable {now t : UInt64}

theorem toNat_candidate (raw : UInt32) (now : UInt64) :
    ((now &&& ~~~0xffffffff) ||| raw.toUInt64).toNat =
      now.toNat / 4294967296 * 4294967296 + raw.toNat := by
  rw [UInt64.toNat_or, UInt64.toNat_and_not_mask, UInt32.toNat_toUInt64, Nat.or_comm,
    ← Nat.shiftLeft_eq, Bytes.or_shiftLeft_eq_add raw.toNat_lt]
  omega

theorem young_iff (h : t ≤ now) : now - t ≤ 30000000 ↔ now.toNat ≤ t.toNat + 30000000 := by
  rw [UInt64.le_iff_toNat_le, UInt64.toNat_sub_of_le _ _ h]
  show now.toNat - t.toNat ≤ 30000000 ↔ _
  omega

theorem fresh_eq (h : t ≤ now) : imuTimestampExpand.fresh now t =
    if now.toNat ≤ t.toNat + 30000000 then (true, some t) else (false, some 0) := by
  unfold imuTimestampExpand.fresh
  rw [← ite_not, if_congr (UInt64.not_lt.trans (young_iff h)) rfl rfl]

/-- **What is answered**: the last time up to `now` with these low bits, if it is young. -/
theorem expand_cases (raw : UInt32) (now out : UInt64) :
    (imuTimestampExpand raw now (some out) = (false, some 0) ∧
      ∀ t : UInt64, t.toNat ≤ now.toNat → t.toNat % 4294967296 = raw.toNat →
        t.toNat + 30000000 < now.toNat) ∨
    ∃ t : UInt64, imuTimestampExpand raw now (some out) = (true, some t) ∧ t ≤ now ∧
      t.toNat % 4294967296 = raw.toNat ∧ now.toNat ≤ t.toNat + 30000000 := by
  have hraw : raw.toNat < 4294967296 := raw.toNat_lt
  have hperiod : (1 <<< (32 : UInt64) : UInt64).toNat = 4294967296 := by decide
  have hc := toNat_candidate raw now
  -- in the last period that has begun by then, nothing lies between the candidate and `now`
  have hfresh : ∀ {c : UInt64}, c.toNat ≤ now.toNat → now.toNat < c.toNat + 4294967296 →
      c.toNat % 4294967296 = raw.toNat →
      (imuTimestampExpand.fresh now c = (false, some 0) ∧
        ∀ t : UInt64, t.toNat ≤ now.toNat → t.toNat % 4294967296 = raw.toNat →
          t.toNat + 30000000 < now.toNat) ∨
      ∃ t : UInt64, imuTimestampExpand.fresh now c = (true, some t) ∧ t ≤ now ∧
        t.toNat % 4294967296 = raw.toNat ∧ now.toNat ≤ t.toNat + 30000000 := by
    intro c hle hnear hlow
    have hle' : c ≤ now := UInt64.le_iff_toNat_le.mpr hle
    rw [fresh_eq hle']
    split
    · next hyoung => exact .inr ⟨c, rfl, hle', hlow, hyoung⟩
    · next hold => exact .inl ⟨rfl, fun t ht hlow' => by omega⟩
  unfold imuTimestampExpand
  dsimp only
  generalize (now &&& ~~~0xffffffff) ||| raw.toUInt64 = candidate at hc ⊢
  split
  · next hfuture =>
    rw [gt_iff_lt, UInt64.lt_iff_toNat_lt] at hfuture
    split
    · next hfirst =>
      rw [UInt64.lt_iff_toNat_lt, hperiod] at hfirst
      exact .inl ⟨rfl, fun t ht hlow => by omega⟩
    · next hlater =>
      have hback := UInt64.toNat_sub_of_le _ _ (UInt64.not_lt.mp hlater)
      rw [UInt64.lt_iff_toNat_lt] at hlater
      rw [hperiod] at hback hlater
      exact hfresh (by omega) (by omega) (by omega)
  · next hpast =>
    rw [gt_iff_lt, UInt64.lt_iff_toNat_lt] at hpast
    exact hfresh (by omega) (by omega) (by omega)

/-- **Expansion inverts truncation.** -/
theorem expand_inverts (now out : UInt64) :
    (∀ t ≤ now, now - t ≤ 30000000 →
      imuTimestampExpand t.toUInt32 now (some out) = (true, some t)) ∧
    (∀ t ≤ now, 30000000 < now - t → (now - t).toNat < 2 ^ 32 →
      (imuTimestampExpand t.toUInt32 now (some out)).1 = false) ∧
    (∀ raw, (imuTimestampExpand raw now (some out)).1 = true →
      ∃ r, (imuTimestampExpand raw now (some out)).2 = some r ∧ r ≤ now ∧ now - r ≤ 30000000 ∧
        r.toNat % 2 ^ 32 = raw.toNat) := by
  refine ⟨fun t ht hyoung => ?_, fun t ht hold hnear => ?_, fun raw htrue => ?_⟩
  · have hle := UInt64.le_iff_toNat_le.mp ht
    have hyoung := (young_iff ht).mp hyoung
    have hlow : t.toNat % 4294967296 = t.toUInt32.toNat := (UInt64.toNat_toUInt32 t).symm
    rcases expand_cases t.toUInt32 now out with ⟨-, hnone⟩ | ⟨r, heq, hr, hlow', hyoung'⟩
    · exact absurd (hnone t hle hlow) (Nat.not_lt.mpr hyoung)
    · have hr := UInt64.le_iff_toNat_le.mp hr
      obtain rfl : r = t := UInt64.toNat_inj.mp (by omega)
      exact heq
  · have hle := UInt64.le_iff_toNat_le.mp ht
    have hold := (not_congr (young_iff ht)).mp (UInt64.not_le.mpr hold)
    have hlow : t.toNat % 4294967296 = t.toUInt32.toNat := (UInt64.toNat_toUInt32 t).symm
    rw [UInt64.toNat_sub_of_le _ _ ht] at hnear
    rcases expand_cases t.toUInt32 now out with ⟨heq, -⟩ | ⟨r, -, hr, hlow', hyoung⟩
    · rw [heq]
    · have hr := UInt64.le_iff_toNat_le.mp hr
      omega
  · rcases expand_cases raw now out with ⟨heq, -⟩ | ⟨r, heq, hr, hlow, hyoung⟩
    · exact absurd ((congrArg Prod.fst heq).symm.trans htrue) nofun
    · exact ⟨r, congrArg Prod.snd heq, hr, (young_iff hr).mpr hyoung, hlow⟩

end

end Brickwright.Imu
