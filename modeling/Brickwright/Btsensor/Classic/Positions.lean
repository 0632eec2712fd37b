import Brickwright.Btsensor.Classic.Observed
import Brickwright.Btsensor.Classic.Replies

/-!
# What is reported of a run by an angle

A line is answered by the host's thread as that of a run that could not be started, or that was
stopped; by a firing, when its run is over; and by either of them when the timer could not be set.
-/

namespace Brickwright.Btsensor.Classic

open Backend Decimal Unwrapped
open List

variable {σ : Type*} {env : IoCall → σ → IoResult × σ} {s : System σ} {w : Watch}

/-! ## Who answers a line -/

section

variable {line : Nat} {id : List UInt8} {result : Int} {notes : List Note}

theorem Silent.not_reply (h : Silent notes) : .reply line id result ∉ notes := by
  intro hmem
  have hnone := (h _ hmem fun _ _ => 1).2
  cases hnone

theorem silent_singleton {n : Note} (h : ∀ f, n.incurs f = 0 ∧ n.settles f = 0) : Silent [n] := by
  intro m hm
  cases mem_singleton.mp hm
  exact h

theorem of_mem_reply {asked : Asked} {rc : Int} (h : .reply line id result ∈ asked.reply rc) :
    asked.line = line ∧ rc = result := by
  unfold Asked.reply at h
  split at h
  · exact absurd h not_mem_nil
  · cases mem_singleton.mp h
    exact ⟨rfl, rfl⟩

theorem silent_tag (a : Answers) (asked : Asked) (port : Port) (operation : Operation)
    (goal : Goal) (endState : UInt8) :
    Silent (s.tag env a asked port operation goal endState).2 := by
  unfold System.tag
  dsimp only
  split
  · exact silent_singleton fun _ => ⟨rfl, rfl⟩
  · exact silent_singleton fun _ => ⟨rfl, rfl⟩

theorem silent_start (a : Answers) (asked : Asked) (port : Port) (operation : Operation)
    (goal : Goal) (endState : UInt8) :
    Silent (s.start env a asked port operation goal endState).2 := by
  unfold System.start
  split
  · exact silent_nil
  · split
    · exact silent_nil
    · cases goal with
      | timed timeMs => exact silent_tag a asked port _ _ endState
      | degrees angle =>
        dsimp only
        split
        · exact silent_nil
        · exact silent_tag (s := s.encode a) a asked port _ _ endState

theorem silent_arm (a : Answers) (port : Port) (run : Run) (goal : Goal) :
    Silent (s.arm a port run goal).2 := by
  unfold System.arm
  dsimp only
  split
  · exact silent_nil
  · exact silent_singleton fun _ => ⟨rfl, rfl⟩

theorem silent_cancel (asked : Asked) (port : Port) : Silent (s.cancel asked port).2 := by
  unfold System.cancel
  split
  · exact silent_nil
  · exact silent_singleton fun _ => ⟨rfl, rfl⟩

theorem silent_overAll (pending : Table) : Silent (System.overAll pending) := by
  intro n hn f
  obtain ⟨r, -, rfl⟩ := mem_map.mp hn
  exact ⟨rfl, rfl⟩

theorem silent_rearm (a : Answers) (asked : Asked) (canceled : Run) :
    Silent (s.rearm a asked canceled).2 := by
  unfold System.rearm
  dsimp only
  split
  · exact silent_overAll _
  · exact silent_nil

theorem silent_visit (a : Answers) (port : Port) : Silent (s.visit a port).2 := by
  unfold System.visit
  split
  · exact silent_nil
  · split
    · exact silent_nil
    · split
      · exact silent_nil
      · dsimp only
        split
        · exact silent_nil
        · exact silent_nil

theorem silent_finish (port : Port) (completed : Run) (rc : Int) :
    Silent (s.finish port completed rc).2 := by
  unfold System.finish
  split
  · exact silent_nil
  · split
    · exact silent_singleton fun _ => ⟨rfl, rfl⟩
    · exact silent_nil

theorem silent_fired (a : Answers) : Silent (s.fired a).2 := by
  unfold System.fired
  dsimp only
  split
  · exact silent_overAll _
  · exact silent_nil

theorem not_reply_note (asked : Asked) : .reply line id result ∉ asked.note := by
  unfold Asked.note
  split
  · exact not_mem_nil
  · intro h
    cases mem_singleton.mp h

theorem not_reply_receive (link : Nat) (bytes : List UInt8) :
    .reply line id result ∉ (s.receive link bytes).2 := by
  unfold System.receive
  split
  · exact not_mem_nil
  · split
    · exact not_mem_nil
    · split
      · exact not_mem_nil
      · exact not_reply_note _

theorem not_reply_disconnect (link : Nat) (connected : Bool) :
    .reply line id result ∉ (s.disconnect link connected).2 := by
  unfold System.disconnect
  split
  · exact not_mem_nil
  · intro h
    obtain ⟨r, -, hr⟩ := mem_map.mp h
    cases hr

theorem reply_of_abort {failed failed' : Abort} {s' : System σ}
    (habort : s.abort env failed = some (notes, failed', s')) (h : .reply line id result ∈ notes) :
    ∃ r ∈ failed.failed, r.2.asked.line = line ∧ (result < 0 ∨ result = failed.error) := by
  unfold System.abort at habort
  split at habort
  · cases habort
  · cases habort
    exact absurd h (silent_endOwned env s _ _ 1).not_reply
  next run rest stopRc hfailed _ =>
    cases habort
    obtain ⟨hline, hresult⟩ := of_mem_reply h
    refine ⟨_, by rw [hfailed]; exact mem_cons_self, hline, ?_⟩
    rw [← hresult]
    split
    next hneg => exact .inl hneg
    · exact .inr rfl

/-- Where the threads stand when a line is answered. -/
def System.Reports (s : System σ) (line : Nat) (result : Int) : Prop :=
  s.Cancels line ∨
    (∃ asked, s.host = .replying asked result ∧ asked.line = line) ∨
    (∃ port completed, s.timer = .replying port completed result ∧ completed.asked.line = line) ∨
    ∃ failed, ((∃ asked, s.host = .aborting asked failed) ∨ s.timer = .aborting failed) ∧
      ∃ r ∈ failed.failed, r.2.asked.line = line ∧ (result < 0 ∨ result = failed.error)

theorem reports_of_hostStep {a : Answers} (h : .reply line id result ∈ (s.hostStep env a).2) :
    s.Reports line result := by
  unfold System.hostStep at h
  split at h
  · exact absurd h not_mem_nil
  · exact absurd h (silent_operate a _).not_reply
  · exact absurd h (silent_currentState a).not_reply
  · split at h
    · exact absurd h not_mem_nil
    · exact absurd h not_mem_nil
  · dsimp only at h
    split at h
    · exact absurd h (silent_operate a _).not_reply
    · exact absurd h (silent_operate a _).not_reply
  · exact absurd h (silent_start a _ _ _ _ _).not_reply
  · exact absurd h (silent_arm a _ _ _).not_reply
  · exact absurd h (silent_endOwned env s _ _ _).not_reply
  · exact absurd h (silent_cancel _ _).not_reply
  · split at h
    · exact absurd h not_mem_nil
    · exact absurd h not_mem_nil
  · exact absurd h (silent_rearm a _ _).not_reply
  next hhost => exact .inl ⟨_, _, _, hhost, (of_mem_reply h).1⟩
  next hhost =>
    split at h
    · exact absurd h not_mem_nil
    next habort =>
      exact .inr (.inr (.inr ⟨_, .inl ⟨_, hhost⟩, reply_of_abort habort h⟩))
  next hhost =>
    obtain ⟨hline, rfl⟩ := of_mem_reply h
    exact .inr (.inl ⟨_, hhost, hline⟩)
  · split at h
    · exact absurd h not_mem_nil
    · exact absurd h not_mem_nil
  · exact absurd h not_mem_nil
  · exact absurd h (silent_endOwned env s _ _ 1).not_reply

theorem reports_of_timerStep {a : Answers} (h : .reply line id result ∈ (s.timerStep env a).2) :
    s.Reports line result := by
  unfold System.timerStep at h
  split at h
  · exact absurd h not_mem_nil
  · split at h
    · exact absurd h not_mem_nil
    · split at h
      · exact absurd h (silent_visit a _).not_reply
      · exact absurd h (silent_fired a).not_reply
  · exact absurd h (silent_endOwned env s _ _ _).not_reply
  · split at h
    · exact absurd h not_mem_nil
    · exact absurd h (silent_finish _ _ _).not_reply
  next htimer =>
    obtain ⟨hline, rfl⟩ := of_mem_reply h
    exact .inr (.inr (.inl ⟨_, _, htimer, hline⟩))
  next htimer =>
    split at h
    · exact absurd h not_mem_nil
    next habort =>
      exact .inr (.inr (.inr ⟨_, .inr htimer, reply_of_abort habort h⟩))

theorem reports_of_step {event : Event} (h : .reply line id result ∈ (s.step env event).2) :
    s.Reports line result := by
  cases event with
  | receive link bytes =>
    simp only [System.step] at h
    split at h
    · exact absurd h (not_reply_receive link bytes)
    · exact absurd h not_mem_nil
  | linkState link connected =>
    simp only [System.step] at h
    split at h
    · exact absurd h (not_reply_disconnect link connected)
    · exact absurd h not_mem_nil
  | host a => exact reports_of_hostStep h
  | fire =>
    simp only [System.step] at h
    split at h
    · exact absurd h not_mem_nil
    · exact absurd h not_mem_nil
  | timer a => exact reports_of_timerStep h
  | other request => exact absurd h (silent_singleton fun _ => ⟨rfl, rfl⟩).not_reply

end

/-! ## What is reported -/

theorem System.Watched.reported (h : s.Watched w) {line : Nat} {result : Int}
    (hreports : s.Reports line result) : s.Cancels line ∨
      (w.AsksDegrees line → result ≠ 0 ∧ Unambiguous (w.readings line)) ∨
      Settled w (w.EndFailed line result) line result := by
  have hgiven {failed : Abort} (hfailed : GivenUp w failed)
      (hr : ∃ r ∈ failed.failed, r.2.asked.line = line ∧ (result < 0 ∨ result = failed.error)) :
      w.AsksDegrees line → result ≠ 0 ∧ Unambiguous (w.readings line) := by
    obtain ⟨r, hr, rfl, hresult⟩ := hr
    obtain ⟨hneg, hall⟩ := hfailed (ne_nil_of_mem hr)
    exact fun hasks => ⟨by omega, hall r hr hasks⟩
  rcases hreports with hcancels | ⟨asked, hhost, rfl⟩ | ⟨port, completed, htimer, rfl⟩ |
    ⟨failed, ⟨asked, hhost⟩ | htimer, hr⟩
  · exact .inl hcancels
  · have hok := h.host
    rw [hhost] at hok
    refine .inr (.inl fun hasks => ?_)
    obtain ⟨hrc, hunambiguous, -⟩ := hok hasks
    exact ⟨hrc, hunambiguous⟩
  · have hok := h.timer
    rw [htimer] at hok
    exact .inr (.inr hok)
  · have hok := h.host
    rw [hhost] at hok
    exact .inr (.inl (hgiven hok.2.1 hr))
  · have hok := h.timer
    rw [htimer] at hok
    exact .inr (.inl (hgiven hok hr))

theorem System.exists_polled {a : Answers} {line : Nat} (hreads : s.reads (.timer a) = some line) :
    ∃ n, ∃ hport : n < 6, ∃ run, s.timer = .visiting n ∧ ¬ s.host.HoldsLock ∧
      s.pending ⟨n, hport⟩ = some run ∧ run.asked.line = line ∧ ¬ run.deadlineMs > a.now ∧
        run.degrees = true ∧ (a.encoderRc = 0 ∨ a.encoderRc = -EAGAIN) := by
  rw [System.reads] at hreads
  split at hreads
  next n htimer =>
    split at hreads
    · cases hreads
    next hlock =>
      split at hreads
      next hport =>
        split at hreads
        next run hrun =>
          split at hreads
          · cases hreads
          next hno =>
            obtain ⟨hdue, hno⟩ := not_or.mp hno
            obtain ⟨htimed, hrc⟩ := not_or.mp hno
            exact ⟨n, hport, run, htimer, hlock, hrun, Option.some.inj hreads, hdue,
              (Bool.not_eq_false _).mp htimed, not_not.mp hrc⟩
        · cases hreads
      · cases hreads
  · cases hreads

theorem System.Watched.halfStep (h : s.Watched w) {a : Answers} {line : Nat} {p q : Int}
    {qs : List Int} (hreads : s.reads (.timer a) = some line) (hline : w.readings line = q :: qs)
    (hmeasured : a.degrees = Int32.ofInt p) (hhalf : HalfStep p q) :
    ∃ port run, run.asked.line = line ∧
      (s.step env (.timer a)).1.timer = .ending port run (-EOVERFLOW) := by
  obtain ⟨n, hport, run, htimer, hlock, hrun, rfl, hdue, hdegrees, hrc⟩ := s.exists_polled hreads
  obtain ⟨-, -, -, -, -, -, hresult⟩ := h.polled htimer hrun hdegrees hrc p a.again
  have hoverflow : (run.measure a.encoderRc a.degrees a.again).1 = -EOVERFLOW := by
    rw [hline, ← hmeasured] at hresult
    rcases hresult with ⟨-, hunambiguous⟩ | ⟨hoverflow, -⟩
    · exact absurd hhalf (isChain_cons_cons.mp hunambiguous).1
    · exact hoverflow
  have hne : (-EOVERFLOW : Int) ≠ 0 := by decide
  refine ⟨⟨n, hport⟩, run, rfl, ?_⟩
  show (s.timerStep env a).1.timer = _
  rw [System.timerStep, htimer]
  dsimp only
  rw [if_neg hlock, dif_pos hport, System.visit, hrun]
  dsimp only
  rw [if_neg hdue, if_neg (by rw [hdegrees]; exact Bool.noConfusion), hoverflow,
    if_neg (fun hgoes => hne hgoes.1), if_neg (fun hzero => hne hzero.1)]

theorem System.Watched.follows (h : s.Watched w) : Follows env s w s.Cancels w.EndFailed where
  displaced port run hrun hdegrees hsteady := by
    obtain ⟨operation, goal, endState, htodo, hmatches⟩ := h.tracked port run hrun
    cases goal with
    | timed timeMs =>
      rw [hmatches] at hdegrees
      cases hdegrees
    | degrees angle => exact Along.toInt_displacement hmatches hsteady
  halfStep a line p q qs hreads hline hmeasured hhalf := h.halfStep hreads hline hmeasured hhalf
  reached event line id hmem port operation angle endState htodo hsteady := by
    rcases h.reported (reports_of_step hmem) with hcancels | hrefused | ⟨todo, htodo', hall⟩
    · exact .inl hcancels
    · exact absurd rfl (hrefused ⟨port, operation, angle, endState, htodo⟩).1
    · rw [htodo] at htodo'
      cases htodo'
      exact .inr ((hall port operation angle endState rfl).2.1 rfl hsteady)
  overflowed event line id result hmem hasks hno := by
    rcases h.reported (reports_of_step hmem) with hcancels | hrefused | ⟨todo, htodo', hall⟩
    · exact .inl hcancels
    · exact absurd (hrefused hasks).2 hno
    · obtain ⟨port, operation, angle, endState, htodo⟩ := hasks
      rw [htodo] at htodo'
      cases htodo'
      exact .inr ((hall port operation angle endState rfl).2.2 hno)

/-! ## Runs of the system -/

theorem watched_run (events : List (Event × Int)) (hfits : ∀ e ∈ events, Fits e)
    (o : System σ × Watch) (hsound : o.1.Sound) (h : o.1.Watched o.2) :
    ((watching env).run o events).1.Watched ((watching env).run o events).2 := by
  induction events generalizing o with
  | nil => exact h
  | cons e events ih =>
    obtain ⟨hfirst, hrest⟩ := forall_mem_cons.mp hfits
    exact ih hrest _ (hsound.step e.1) (h.step hsound e hfirst)

/-- **Degrees runs follow the position**, around the counter's range any number of times. A run that
an explicit stop cancels is answered with success, and an end action that fails with its error. -/
theorem degrees_follow (env : IoCall → σ → IoResult × σ) (context : σ) (events : List (Event × Int))
    (hfits : ∀ e ∈ events, Fits e) :
    let o := (watching env).run (boot context, Watch.new) events
    Follows env o.1 o.2 o.1.Cancels o.2.EndFailed :=
  (watched_run events hfits _ (System.sound_boot context) (System.watched_boot context)).follows

def degreesLine : List UInt8 :=
  text "\x7b\"i\":\"aaaa\",\"m\":\"scratch.motor_run_for_degrees\",\"p\":\x7b\"port\":\"A\"," ++
    text "\"speed\":50,\"degrees\":90,\"stop\":0,\"stall\":false\x7d\x7d"

/-- It starts 8 degrees below the end of the counter's range, and is 90 degrees on in a poll. -/
def turned : List (Event × Int) :=
  [(.receive linkClassic degreesLine, 0), (.host { degrees := 2147483640 }, 2147483640),
    (.host { degrees := 2147483640 }, 2147483640), (.fire, 0),
    (.timer { now := 20, again := 20, degrees := -2147483566 }, 2147483730)]

theorem watching_receive (s : System σ) (w : Watch) {line : List UInt8} (request : Request)
    (todo : Todo) (position : Int) (events : List (Event × Int)) (hidle : s.host = .idle)
    (hsound : parseLegacySound line = none) (hrequest : parseRequest line = some request)
    (htodo : request.todo = todo) :
    (watching env).run (s, w) ((.receive linkClassic line, position) :: events) =
      (watching env).run
        ({ s with
            received := s.received + 1
            host := System.begin ⟨s.received, request.id⟩ todo },
          { w with todo := Function.update w.todo s.received (some todo) }) events := by
  have hafter : w.after env s (.receive linkClassic line) position =
      { w with todo := Function.update w.todo s.received (some todo) } := by
    rw [Watch.after, System.asks, hidle]
    rw [if_neg (by decide), hsound, hrequest]
    dsimp only [Option.map_some]
    rw [htodo]
    rfl
  exact congrArg (fun o => (watching env).run o events)
    (Prod.ext (s.step_receive env request todo hidle hsound hrequest htodo) hafter)

/-- What `degreesLine` asks for. -/
def quarterTurn : Todo :=
  .start 0 { kind := .motor, port := 0, speed := 50 } (.degrees 90) 0

theorem watching_degreesLine (events : List (Event × Int)) :
    (watching favourable).run (boot (), Watch.new) ((.receive linkClassic degreesLine, 0) :: events)
      = (watching favourable).run
        ({ boot () with received := 1, host := System.begin ⟨0, some (text "aaaa")⟩ quarterTurn },
          { Watch.new with todo := Function.update Watch.new.todo 0 (some quarterTurn) })
        events := by
  refine watching_receive (boot ()) _ ⟨text "scratch.motor_run_for_degrees",
    text "\x7b\"port\":\"A\",\"speed\":50,\"degrees\":90,\"stop\":0,\"stall\":false\x7d",
    some (text "aaaa")⟩ _ _ _ rfl ?_ ?_ ?_
  · rw [degreesLine, text_ofList]
    decide +kernel
  · rw [degreesLine]
    repeat rw [text_ofList]
    decide +kernel
  · rw [todo_motorRunForDegrees, text_ofList]
    rfl

theorem readings_turned :
    ((watching favourable).run (boot (), Watch.new) turned).2.readings 0 =
      [2147483730, 2147483640] := by
  rw [turned, watching_degreesLine]
  decide +kernel

theorem degrees_follow_turned :
    let o := (watching favourable).run (boot (), Watch.new) turned
    Follows favourable o.1 o.2 o.1.Cancels o.2.EndFailed ∧
      o.2.readings 0 = [2147483730, 2147483640] :=
  ⟨degrees_follow favourable () turned (by decide), readings_turned⟩

/-- A run by 90 degrees is cancelled by a stop before its first poll. -/
def stoppedShort : List (Event × Int) :=
  [(.receive linkClassic degreesLine, 0), (.host {}, 0), (.host {}, 0),
    (.receive linkClassic (text "\x7b\"i\":\"bbbb\",\"m\":\"scratch.motor_stop\"," ++
      text "\"p\":\x7b\"port\":\"A\",\"stop\":0\x7d\x7d"), 0),
    (.host {}, 0), (.host {}, 0), (.host {}, 0), (.host {}, 0)]

/-- Another link takes the motor over before the run sees a step of half of the range. -/
def takenOver : List (Event × Int) :=
  [(.receive linkClassic degreesLine, 0), (.host {}, 0), (.host {}, 0),
    (.other (.operation linkBle (some { port := 0, speed := 20 }) false), 0), (.fire, 0),
    (.timer { now := 20, again := 20, degrees := -2147483648 }, 2147483648), (.timer {}, 0),
    (.timer {}, 0)]

def Note.result? : Note → Option (Nat × Int)
  | .reply line _ result => some (line, result)
  | _ => none

def Watch.angle? (w : Watch) (line : Nat) : Option Int :=
  match w.todo line with
  | some (.start _ _ (.degrees angle) _) => some angle
  | _ => none

/-- The line that an explicit stop is about to answer. -/
def Host.canceled? : Host → Option Nat
  | .resolving _ canceled _ => some canceled.asked.line
  | _ => none

theorem canceled?_of_cancels {line : Nat} (h : s.Cancels line) : s.host.canceled? = some line := by
  obtain ⟨asked, canceled, failed, hhost, rfl⟩ := h
  rw [hhost]
  rfl

theorem exists_reply {notes : List Note} {line : Nat} {result : Int}
    (h : notes.filterMap Note.result? = [(line, result)]) :
    ∃ id, .reply line id result ∈ notes := by
  have hmem : (line, result) ∈ notes.filterMap Note.result? := by
    rw [h]
    exact mem_singleton_self _
  obtain ⟨n, hn, hresult⟩ := mem_filterMap.mp hmem
  cases n with
  | reply l id r =>
    cases hresult
    exact ⟨id, hn⟩
  | _ => cases hresult

theorem exists_start {line : Nat} {angle : Int} (h : w.angle? line = some angle) :
    ∃ port operation endState,
      w.todo line = some (.start port operation (.degrees angle) endState) := by
  unfold Watch.angle? at h
  split at h
  next htodo =>
    cases h
    exact ⟨_, _, _, htodo⟩
  · cases h

/-- The first line asks for 90 degrees and has these readings; it is canceled or not, and the next
step of this thread gives it this reply. -/
def Shows (events : List (Event × Int)) (event : Event) (readings : List Int)
    (canceled : Option Nat) (result : Int) : Prop :=
  let o := (watching favourable).run (boot (), Watch.new) events
  (∀ e ∈ events, Fits e) ∧ o.2.angle? 0 = some 90 ∧ o.2.readings 0 = readings ∧
    o.1.host.canceled? = canceled ∧
    (o.1.step favourable event).2.filterMap Note.result? = [(0, result)]

instance (events : List (Event × Int)) (event : Event) (readings : List Int)
    (canceled : Option Nat) (result : Int) :
    Decidable (Shows events event readings canceled result) :=
  inferInstanceAs (Decidable (_ ∧ _))

theorem shows_stoppedShort : Shows stoppedShort (.host {}) [0] (some 0) 0 := by
  refine ⟨by decide, ?_⟩
  rw [stoppedShort, watching_degreesLine]
  repeat rw [text_ofList]
  decide +kernel

theorem shows_takenOver : Shows takenOver (.timer {}) [2147483648, 0] none (-ESTALE) := by
  refine ⟨by decide, ?_⟩
  rw [takenOver, watching_degreesLine]
  decide +kernel

/-- **Neither exception can go**: a stop is answered with success short of the angle, and the error
of an end action takes the place of an overflow. -/
theorem degrees_follow_strictly :
    (¬ ∀ events : List (Event × Int), (∀ e ∈ events, Fits e) →
      let o := (watching favourable).run (boot (), Watch.new) events
      Follows favourable o.1 o.2 (fun _ => False) o.2.EndFailed) ∧
    ¬ ∀ events : List (Event × Int), (∀ e ∈ events, Fits e) →
      let o := (watching favourable).run (boot (), Watch.new) events
      Follows favourable o.1 o.2 o.1.Cancels fun _ _ => False := by
  constructor
  · intro h
    obtain ⟨hfits, hangle, hreadings, -, hreply⟩ := shows_stoppedShort
    obtain ⟨id, hmem⟩ := exists_reply hreply
    obtain ⟨port, operation, endState, htodo⟩ := exists_start hangle
    have hsteady : Steady ([0] : List Int) := isChain_singleton _
    rcases (h stoppedShort hfits).reached _ 0 id hmem port operation 90 endState htodo
      (hreadings ▸ hsteady) with hno | hle
    · exact hno
    · rw [hreadings] at hle
      change (90 : Int) ≤ _ * 0 at hle
      omega
  · intro h
    obtain ⟨hfits, hangle, hreadings, hcanceled, hreply⟩ := shows_takenOver
    obtain ⟨id, hmem⟩ := exists_reply hreply
    obtain ⟨port, operation, endState, htodo⟩ := exists_start hangle
    have hambiguous : ¬ Unambiguous ([2147483648, 0] : List Int) := fun hchain =>
      (isChain_cons_cons.mp hchain).1 (by decide)
    have hasks : Watch.AsksDegrees _ 0 := ⟨port, operation, 90, endState, htodo⟩
    rcases (h takenOver hfits).overflowed _ 0 id (-ESTALE) hmem hasks (hreadings ▸ hambiguous)
      with hcancels | hoverflow | hno
    · have hsome := canceled?_of_cancels hcancels
      rw [hcanceled] at hsome
      cases hsome
    · exact absurd hoverflow (by decide)
    · exact hno

end Brickwright.Btsensor.Classic
