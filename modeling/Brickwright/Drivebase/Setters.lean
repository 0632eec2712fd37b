import Brickwright.Drivebase.Control

/-!
# The ranges of the settings

Before the control loop starts, the gains and the thresholds of an axis may be set, each within its
range (`db_settings_set_pid_*`, `db_settings_set_comp_*`). `accepted_defaults` says that the
compiled-in settings are in these ranges, `posTolerance_bounds` what they make of the tolerance that
may be derived from a gain.
-/

namespace Brickwright.Drivebase

namespace Settings

def outMaxLimit : Int := 10000
def kiLimit : Int := 10000
def kpLimit : Int := 10000
def deadbandLimit : Int := 100000
def posTolLimitMdeg : Int := 60000
def speedTolLimitMdegps : Int := 1000000
def doneWindowLimitMs : Nat := 10000
def encoderFloorMdeg : Int := 1000

end Settings

/-! ## What the setters accept -/

structure Gains.Accepted (g : Gains) : Prop where
  kpPos : 1 ≤ g.kpPos ∧ g.kpPos ≤ Settings.kpLimit
  kiPos : 0 ≤ g.kiPos ∧ g.kiPos ≤ Settings.kiLimit
  kdPos : 0 ≤ g.kdPos ∧ g.kdPos ≤ Settings.kpLimit
  kpSpeed : 0 ≤ g.kpSpeed ∧ g.kpSpeed ≤ Settings.kpLimit
  kiSpeed : 0 ≤ g.kiSpeed ∧ g.kiSpeed ≤ Settings.kiLimit
  deadbandMdeg : 0 ≤ g.deadbandMdeg ∧ g.deadbandMdeg ≤ Settings.deadbandLimit
  outMax : 0 < g.outMax ∧ g.outMax ≤ Settings.outMaxLimit
  outMin : g.outMin = -g.outMax

structure Completion.Accepted (c : Completion) : Prop where
  posToleranceMdeg : c.posToleranceMdeg = -1 ∨
    Settings.encoderFloorMdeg ≤ c.posToleranceMdeg ∧ c.posToleranceMdeg ≤ Settings.posTolLimitMdeg
  speedToleranceMdegps : 0 ≤ c.speedToleranceMdegps ∧
    c.speedToleranceMdegps ≤ Settings.speedTolLimitMdegps
  smartContinueWindowMdeg : c.smartContinueWindowMdeg = -1 ∨
    0 ≤ c.smartContinueWindowMdeg ∧ c.smartContinueWindowMdeg ≤ Settings.posTolLimitMdeg
  doneWindowMs : c.doneWindowMs ≤ Settings.doneWindowLimitMs
  smartPassiveHoldMs : c.smartPassiveHoldMs ≤ Settings.doneWindowLimitMs

namespace Settings

structure Accepted (cfg : Settings) : Prop where
  gains : ∀ axis, (cfg.gains axis).Accepted
  completion : ∀ axis, (cfg.completion axis).Accepted

variable {cfg : Settings}

theorem accepted_defaults : defaults.Accepted := by
  constructor
  · intro axis
    cases axis <;> constructor <;> decide
  · intro axis
    cases axis <;> constructor <;> decide

theorem posTolerance_bounds (h : cfg.Accepted) (axis : Axis) :
    1000 ≤ (cfg.completionAxis axis).posToleranceMdeg ∧
      (cfg.completionAxis axis).posToleranceMdeg ≤ 400000 := by
  simp only [completionAxis]
  split
  · unfold derivePosToleranceMdeg
    simp only
    have hquot : (400 * 1000 : Int).tdiv (cfg.gains axis).kpPos ≤ 400000 :=
      Int.tdiv_le_self _ (by decide)
    split <;> omega
  · next hset =>
    have htol := (h.completion axis).posToleranceMdeg
    unfold encoderFloorMdeg posTolLimitMdeg at htol
    omega

end Settings

end Brickwright.Drivebase
