import Mathlib.Tactic.Linarith
import Mathlib.Tactic.Positivity
import Mathlib.Tactic.Ring

/-!
# Ramps in whole numbers

A move speeds up at a steady rate, keeps its speed for a while and slows down at a steady rate.
Each distance is computed for itself and rounded down, with `unit` for the time in which a speed of
one makes a way of one; so a move may be behind where an exact one would be, and even go back a
little when two distances are taken from one another.

* `Profile` — such a move, with what its times and its speed have to meet to make a given length.
* `Profile.position_mem` — it stays between its ends, but for one.
* `Profile.position_le_add_one` — it goes back by one at most.
-/

namespace Motion

/-- The way that the speed `v` makes in the time `t`. -/
def way (unit v t : Int) : Int := v * t / unit

/-- The way that the acceleration `a` makes from rest in the time `t`. -/
def rise (unit a t : Int) : Int := a * t * t / (2 * (unit * unit))

/-- The way made in the time `t` while the speed falls from `v` by `d`. -/
def fall (unit v d t : Int) : Int := way unit v t - rise unit d t

section

variable {unit v a d t t' : Int}

theorem way_nonneg (hunit : 0 < unit) (hv : 0 ≤ v) (ht : 0 ≤ t) : 0 ≤ way unit v t :=
  Int.ediv_nonneg (mul_nonneg hv ht) hunit.le

theorem way_mono (hunit : 0 < unit) (hv : 0 ≤ v) (h : t ≤ t') : way unit v t ≤ way unit v t' :=
  Int.ediv_le_ediv hunit (mul_le_mul_of_nonneg_left h hv)

theorem rise_nonneg (hunit : 0 < unit) (ha : 0 ≤ a) (ht : 0 ≤ t) : 0 ≤ rise unit a t := by
  apply Int.ediv_nonneg
  · exact mul_nonneg (mul_nonneg ha ht) ht
  · positivity

theorem rise_mono (hunit : 0 < unit) (ha : 0 ≤ a) (ht : 0 ≤ t) (h : t ≤ t') :
    rise unit a t ≤ rise unit a t' := by
  apply Int.ediv_le_ediv
  · positivity
  · exact mul_le_mul (mul_le_mul_of_nonneg_left h ha) h ht (mul_nonneg ha (ht.trans h))

theorem rise_bounds (hunit : 0 < unit) :
    rise unit a t * (2 * (unit * unit)) ≤ a * t * t ∧
      a * t * t + 1 ≤ (rise unit a t + 1) * (2 * (unit * unit)) := by
  have hpos : 0 < 2 * (unit * unit) := by positivity
  exact ⟨Int.ediv_mul_le _ hpos.ne', Int.lt_ediv_add_one_mul_self _ hpos⟩

theorem way_bounds (hunit : 0 < unit) :
    way unit v t * unit ≤ v * t ∧ v * t + 1 ≤ (way unit v t + 1) * unit :=
  ⟨Int.ediv_mul_le _ hunit.ne', Int.lt_ediv_add_one_mul_self _ hunit⟩

/-- A rise that does not last longer than it takes to the speed `v` makes at most `v² / 2a`. -/
theorem rise_le (hunit : 0 < unit) (ha : 0 ≤ a) (ht : 0 ≤ t) (h : a * t ≤ v * unit) :
    2 * a * rise unit a t ≤ v * v := by
  have hfloor := (rise_bounds (a := a) (t := t) hunit).1
  have hsquare : a * t * (a * t) ≤ v * unit * (v * unit) :=
    mul_self_le_mul_self (mul_nonneg ha ht) h
  have hscaled : 2 * a * rise unit a t * (unit * unit) ≤ v * v * (unit * unit) := by
    calc 2 * a * rise unit a t * (unit * unit)
        = a * (rise unit a t * (2 * (unit * unit))) := by ring
      _ ≤ a * (a * t * t) := mul_le_mul_of_nonneg_left hfloor ha
      _ = a * t * (a * t) := by ring
      _ ≤ v * unit * (v * unit) := hsquare
      _ = v * v * (unit * unit) := by ring
  exact le_of_mul_le_mul_right hscaled (mul_pos hunit hunit)

theorem fall_zero : fall unit v d 0 = 0 := by
  simp [fall, way, rise]

theorem fall_nonneg (hunit : 0 < unit) (hd : 0 ≤ d) (ht : 0 ≤ t) (h : d * t ≤ v * unit) :
    0 ≤ fall unit v d t := by
  have hfloor := (rise_bounds (a := d) (t := t) hunit).1
  have hrise := rise_nonneg hunit hd ht
  have hdouble : rise unit d t * 2 * unit * unit ≤ v * t * unit := by
    calc rise unit d t * 2 * unit * unit = rise unit d t * (2 * (unit * unit)) := by ring
      _ ≤ d * t * t := hfloor
      _ ≤ v * unit * t := mul_le_mul_of_nonneg_right h ht
      _ = v * t * unit := by ring
  have hhalf : rise unit d t * 2 * unit ≤ v * t := le_of_mul_le_mul_right hdouble hunit
  have hless : rise unit d t * unit ≤ rise unit d t * 2 * unit :=
    mul_le_mul_of_nonneg_right (by omega) hunit.le
  have hway : rise unit d t ≤ way unit v t := Int.le_ediv_of_mul_le hunit (hless.trans hhalf)
  exact sub_nonneg.mpr hway

theorem fall_lt (hunit : 0 < unit) (hd : 0 < d) : 2 * d * fall unit v d t < v * v + 2 * d := by
  have hway := (way_bounds (v := v) (t := t) hunit).1
  have hrise := (rise_bounds (a := d) (t := t) hunit).2
  have hsquare : 0 ≤ (v * unit - d * t) * (v * unit - d * t) := mul_self_nonneg _
  have hscaled : 2 * d * fall unit v d t * (unit * unit) < (v * v + 2 * d) * (unit * unit) := by
    calc 2 * d * fall unit v d t * (unit * unit)
        = 2 * d * unit * (way unit v t * unit) +
            d * (2 * (unit * unit)) - d * ((rise unit d t + 1) * (2 * (unit * unit))) := by
          simp only [fall]
          ring
      _ ≤ 2 * d * unit * (v * t) + d * (2 * (unit * unit)) - d * (d * t * t + 1) := by
          have hleft := mul_le_mul_of_nonneg_left hway (by positivity : 0 ≤ 2 * d * unit)
          have hright := mul_le_mul_of_nonneg_left hrise hd.le
          linarith
      _ < 2 * d * unit * (v * t) + d * (2 * (unit * unit)) - d * (d * t * t) := by linarith
      _ ≤ (v * v + 2 * d) * (unit * unit) := by linarith
  exact lt_of_mul_lt_mul_right hscaled (by positivity)

/-- While the speed is still there, a fall goes back by one at most. -/
theorem fall_le_add_one (hunit : 0 < unit) (hd : 0 ≤ d) (h : t ≤ t') (hend : d * t' ≤ v * unit) :
    fall unit v d t ≤ fall unit v d t' + 1 := by
  have hway := (way_bounds (v := v) (t := t) hunit).1
  have hrise := (rise_bounds (a := d) (t := t) hunit).2
  have hway' := (way_bounds (v := v) (t := t') hunit).2
  have hrise' := (rise_bounds (a := d) (t := t') hunit).1
  have hbegin : d * t ≤ v * unit := (mul_le_mul_of_nonneg_left h hd).trans hend
  have hahead : 0 ≤ (t' - t) * (2 * (v * unit) - d * t - d * t') :=
    mul_nonneg (sub_nonneg.mpr h) (by linarith)
  have hscaled : 0 < (fall unit v d t' - fall unit v d t + 2) * (2 * (unit * unit)) := by
    calc 0 < (t' - t) * (2 * (v * unit) - d * t - d * t') + 2 * unit + 1 := by linarith
      _ = 2 * unit * (v * t' + 1) - 2 * unit * (v * t) - d * t' * t' + (d * t * t + 1) := by ring
      _ ≤ 2 * unit * ((way unit v t' + 1) * unit) - 2 * unit * (way unit v t * unit) -
            rise unit d t' * (2 * (unit * unit)) + (rise unit d t + 1) * (2 * (unit * unit)) := by
          have hright := mul_le_mul_of_nonneg_left hway' (by positivity : 0 ≤ 2 * unit)
          have hleft := mul_le_mul_of_nonneg_left hway (by positivity : 0 ≤ 2 * unit)
          linarith
      _ = (fall unit v d t' - fall unit v d t + 2) * (2 * (unit * unit)) := by
          simp only [fall]
          ring
  have hpos := (mul_pos_iff_of_pos_right (by positivity : 0 < 2 * (unit * unit))).mp hscaled
  omega

/-- What is left of the length where a move turns from the one ramp to the other. -/
theorem fits_of_triangle {length risen : Int} (ha : 0 < a) (hd : 0 < d)
    (hrisen : 2 * a * risen ≤ v * v) (h : v * v * (a + d) ≤ 2 * a * d * length) :
    v * v < 2 * d * (length - risen + 1) := by
  have hpos : 0 < 2 * a * d := by positivity
  have hscaled : a * (v * v) < a * (2 * d * (length - risen + 1)) := by
    calc a * (v * v) = v * v * (a + d) - d * (v * v) := by ring
      _ ≤ 2 * a * d * length - d * (2 * a * risen) :=
          sub_le_sub h (mul_le_mul_of_nonneg_left hrisen hd.le)
      _ < 2 * a * d * length - d * (2 * a * risen) + 2 * a * d := lt_add_of_pos_right _ hpos
      _ = a * (2 * d * (length - risen + 1)) := by ring
  exact lt_of_mul_lt_mul_left hscaled ha.le

theorem fits_of_trapezoid {length cruised fallen : Int} (hd : 0 < d)
    (hcruised : cruised + fallen ≤ length) (h : v * v < 2 * d * (fallen + 1)) :
    v * v < 2 * d * (length - cruised + 1) :=
  h.trans_le (mul_le_mul_of_nonneg_left (by omega) (by omega))

end

/-! ## Moves -/

/-- A move of a given length: it speeds up for `rising`, keeps `speed` for `cruising` and slows down
for `falling`. Neither ramp takes longer than the speed needs, and what is left of the length when
it begins to slow down is what the way to rest takes. -/
structure Profile where
  unit : Int
  speed : Int
  accel : Int
  decel : Int
  length : Int
  rising : Int
  cruising : Int
  falling : Int
  unit_pos : 0 < unit
  speed_nonneg : 0 ≤ speed
  accel_nonneg : 0 ≤ accel
  decel_pos : 0 < decel
  length_nonneg : 0 ≤ length
  rising_nonneg : 0 ≤ rising
  cruising_nonneg : 0 ≤ cruising
  falling_nonneg : 0 ≤ falling
  rises : accel * rising ≤ speed * unit
  falls : decel * falling ≤ speed * unit
  fits : speed * speed <
    2 * decel * (length - (rise unit accel rising + way unit speed cruising) + 1)

namespace Profile

variable (p : Profile)

def risen : Int := rise p.unit p.accel p.rising

def cruised : Int := p.risen + way p.unit p.speed p.cruising

/-- How far the move is at the time `t`. -/
def position (t : Int) : Int :=
  if t < p.rising then rise p.unit p.accel t
  else if t < p.rising + p.cruising then p.risen + way p.unit p.speed (t - p.rising)
  else if t < p.rising + p.cruising + p.falling then
    p.cruised + fall p.unit p.speed p.decel (t - (p.rising + p.cruising))
  else p.length

/-- How fast the move is at the time `t`. -/
def speedAt (t : Int) : Int :=
  if t < p.rising then way p.unit p.accel t
  else if t < p.rising + p.cruising then p.speed
  else if t < p.rising + p.cruising + p.falling then
    max 0 (p.speed - way p.unit p.decel (t - (p.rising + p.cruising)))
  else 0

theorem risen_nonneg : 0 ≤ p.risen :=
  rise_nonneg p.unit_pos p.accel_nonneg p.rising_nonneg

theorem risen_le_cruised : p.risen ≤ p.cruised :=
  le_add_of_nonneg_right (way_nonneg p.unit_pos p.speed_nonneg p.cruising_nonneg)

/-- Slowing down does not lead further than the end, but for one. -/
theorem cruised_add_fall_le (t : Int) :
    p.cruised + fall p.unit p.speed p.decel t ≤ p.length + 1 := by
  have hfall := fall_lt (v := p.speed) (t := t) p.unit_pos p.decel_pos
  have hlt : 2 * p.decel * fall p.unit p.speed p.decel t <
      2 * p.decel * (p.length - p.cruised + 2) := by
    calc 2 * p.decel * fall p.unit p.speed p.decel t < p.speed * p.speed + 2 * p.decel := hfall
      _ < 2 * p.decel * (p.length - p.cruised + 1) + 2 * p.decel :=
          add_lt_add_left p.fits (2 * p.decel)
      _ = 2 * p.decel * (p.length - p.cruised + 2) := by ring
  have hless := lt_of_mul_lt_mul_left hlt (mul_nonneg (by decide) p.decel_pos.le)
  omega

theorem cruised_le : p.cruised ≤ p.length + 1 := by
  have h := p.cruised_add_fall_le 0
  rwa [fall_zero, add_zero] at h

/-- The part of a move that slows down does not take longer than its speed needs. -/
theorem falling_within {t : Int} (h : t < p.rising + p.cruising + p.falling) :
    p.decel * (t - (p.rising + p.cruising)) ≤ p.speed * p.unit :=
  (mul_le_mul_of_nonneg_left (by omega) p.decel_pos.le).trans p.falls

/-! ### Where it is -/

section

variable {p : Profile} {t t' : Int}

theorem position_of_rising (h : t < p.rising) : p.position t = rise p.unit p.accel t := if_pos h

theorem position_of_cruising (hrisen : p.rising ≤ t) (h : t < p.rising + p.cruising) :
    p.position t = p.risen + way p.unit p.speed (t - p.rising) := by
  rw [position, if_neg hrisen.not_gt, if_pos h]

theorem position_of_falling (hcruised : p.rising + p.cruising ≤ t)
    (h : t < p.rising + p.cruising + p.falling) :
    p.position t =
      p.cruised + fall p.unit p.speed p.decel (t - (p.rising + p.cruising)) := by
  have hcruising := p.cruising_nonneg
  rw [position, if_neg (by omega), if_neg hcruised.not_gt, if_pos h]

theorem position_rising (ht : 0 ≤ t) (h : t < p.rising) :
    0 ≤ p.position t ∧ p.position t ≤ p.risen := by
  rw [position_of_rising h]
  exact ⟨rise_nonneg p.unit_pos p.accel_nonneg ht,
    rise_mono p.unit_pos p.accel_nonneg ht h.le⟩

theorem position_cruising (hrisen : p.rising ≤ t) (h : t < p.rising + p.cruising) :
    p.risen ≤ p.position t ∧ p.position t ≤ p.cruised := by
  rw [position_of_cruising hrisen h]
  constructor
  · exact le_add_of_nonneg_right (way_nonneg p.unit_pos p.speed_nonneg (by omega))
  · exact Int.add_le_add_left (way_mono p.unit_pos p.speed_nonneg (by omega)) _

theorem position_falling (hcruised : p.rising + p.cruising ≤ t)
    (h : t < p.rising + p.cruising + p.falling) :
    p.cruised ≤ p.position t ∧ p.position t ≤ p.length + 1 := by
  rw [position_of_falling hcruised h]
  constructor
  · exact le_add_of_nonneg_right
      (fall_nonneg p.unit_pos p.decel_pos.le (by omega) (p.falling_within h))
  · exact p.cruised_add_fall_le _

theorem position_ended (h : p.rising + p.cruising + p.falling ≤ t) : p.position t = p.length := by
  have hcruising := p.cruising_nonneg
  have hfalling := p.falling_nonneg
  rw [position, if_neg (by omega), if_neg (by omega), if_neg (by omega)]

theorem position_le_cruised (ht : 0 ≤ t) (h : t < p.rising + p.cruising) :
    p.position t ≤ p.cruised := by
  rcases lt_or_ge t p.rising with hrising | hrisen
  · exact (position_rising ht hrising).2.trans p.risen_le_cruised
  · exact (position_cruising hrisen h).2

/-- A move does not leave the way between its ends, but for one beyond the end. -/
theorem position_mem (ht : 0 ≤ t) : 0 ≤ p.position t ∧ p.position t ≤ p.length + 1 := by
  have hrisen := p.risen_nonneg
  have hcruised := p.risen_le_cruised
  have hlength := p.cruised_le
  rcases lt_or_ge t p.rising with h | h
  · obtain ⟨hlow, hhigh⟩ := position_rising ht h
    omega
  · rcases lt_or_ge t (p.rising + p.cruising) with h' | h'
    · obtain ⟨hlow, hhigh⟩ := position_cruising h h'
      omega
    · rcases lt_or_ge t (p.rising + p.cruising + p.falling) with h'' | h''
      · obtain ⟨hlow, hhigh⟩ := position_falling h' h''
        omega
      · rw [position_ended h'']
        have := p.length_nonneg
        omega

/-- A move goes back by one at most, in whatever time. -/
theorem position_le_add_one (ht : 0 ≤ t) (h : t ≤ t') : p.position t ≤ p.position t' + 1 := by
  rcases lt_or_ge t' p.rising with hrising' | hrisen'
  · have hrise := rise_mono p.unit_pos p.accel_nonneg ht h
    rw [position_of_rising (h.trans_lt hrising'), position_of_rising hrising']
    omega
  · rcases lt_or_ge t' (p.rising + p.cruising) with hcruising' | hcruised'
    · have hafter := (position_cruising hrisen' hcruising').1
      rcases lt_or_ge t p.rising with hrising | hrisen
      · have hbefore := (position_rising ht hrising).2
        omega
      · have hway := way_mono p.unit_pos p.speed_nonneg (sub_le_sub_right h p.rising)
        rw [position_of_cruising hrisen (h.trans_lt hcruising'),
          position_of_cruising hrisen' hcruising']
        omega
    · rcases lt_or_ge t' (p.rising + p.cruising + p.falling) with hfalling' | hended'
      · have hafter := (position_falling hcruised' hfalling').1
        rcases lt_or_ge t (p.rising + p.cruising) with hbegun | hcruised
        · have hbefore := position_le_cruised ht hbegun
          omega
        · have hfall := fall_le_add_one p.unit_pos p.decel_pos.le
            (sub_le_sub_right h (p.rising + p.cruising)) (p.falling_within hfalling')
          rw [position_of_falling hcruised (h.trans_lt hfalling'),
            position_of_falling hcruised' hfalling']
          omega
      · rw [position_ended hended']
        exact (position_mem ht).2

/-! ### How fast it is -/

theorem speedAt_of_rising (h : t < p.rising) : p.speedAt t = way p.unit p.accel t := if_pos h

theorem speedAt_of_cruising (hrisen : p.rising ≤ t) (h : t < p.rising + p.cruising) :
    p.speedAt t = p.speed := by
  rw [speedAt, if_neg hrisen.not_gt, if_pos h]

theorem speedAt_of_falling (hcruised : p.rising + p.cruising ≤ t)
    (h : t < p.rising + p.cruising + p.falling) :
    p.speedAt t = max 0 (p.speed - way p.unit p.decel (t - (p.rising + p.cruising))) := by
  have hcruising := p.cruising_nonneg
  rw [speedAt, if_neg (by omega), if_neg hcruised.not_gt, if_pos h]

/-- A move is never faster than its speed, nor backwards. -/
theorem speedAt_mem (ht : 0 ≤ t) : 0 ≤ p.speedAt t ∧ p.speedAt t ≤ p.speed := by
  have hspeed := p.speed_nonneg
  rw [speedAt]
  split
  next hrising =>
    constructor
    · exact way_nonneg p.unit_pos p.accel_nonneg ht
    · apply Int.ediv_le_of_le_mul p.unit_pos
      exact (mul_le_mul_of_nonneg_left hrising.le p.accel_nonneg).trans p.rises
  next hrisen =>
    split
    · exact ⟨hspeed, le_rfl⟩
    · split
      · have hlost := way_nonneg (t := t - (p.rising + p.cruising)) p.unit_pos p.decel_pos.le
          (by omega)
        omega
      · exact ⟨le_rfl, hspeed⟩

theorem speedAt_ended (h : p.rising + p.cruising + p.falling ≤ t) : p.speedAt t = 0 := by
  have hcruising := p.cruising_nonneg
  have hfalling := p.falling_nonneg
  rw [speedAt, if_neg (by omega), if_neg (by omega), if_neg (by omega)]

end

end Profile

end Motion
