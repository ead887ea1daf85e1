import CppPlayground.Machine
import CppPlayground.TextStream
import Mathlib.Data.List.Destutter

/-!
# The cyclic task of an EtherCAT master

`ethercat_user/main.cpp` runs `cyclic_task` once per period of a millisecond. Each cycle looks at
the state of the domain and prints what has changed since the cycle before; when `counter` has
come down to zero it also toggles `blink` and looks at the states of the master and of a slave.

* `run_wakeup` — the wake-up times are computed from each other and do not drift: the time of
  cycle `n` is `n` periods behind the first one, with less than a second of nanoseconds.
* `run_digOut` — `counter` is set to `FREQUENCY` and the cycle that finds it zero does not count it
  down, so that the part that is meant to run once a second runs in every `FREQUENCY + 1`st cycle.
* `run_lines` — of each quantity the values are printed that differ from the value before, among
  those of the cycles that look at it.
-/

namespace CppPlayground

namespace EthercatUser

open Machine TextStream

/-! ## Data -/

/-- `ec_domain_state_t`. -/
structure DomainState where
  workingCounter : ℕ
  wcState : ℕ
  deriving DecidableEq, Repr

/-- `ec_master_state_t`. -/
structure MasterState where
  slavesResponding : ℕ
  alStates : ℕ
  linkUp : ℕ
  deriving DecidableEq, Repr

/-- `ec_slave_config_state_t`. -/
structure SlaveConfigState where
  alState : ℕ
  online : ℕ
  operational : ℕ
  deriving DecidableEq, Repr

/-- The quantities that are reported. -/
inductive Kind
  | workingCounter
  | wcState
  | slavesResponding
  | alStates
  | linkUp
  | alState
  | online
  | operational
  deriving DecidableEq, Repr

/-- A line that is printed. -/
structure Line where
  kind : Kind
  value : ℕ
  deriving DecidableEq, Repr

/-- `struct timespec`. -/
structure Timespec where
  tvSec : ℕ
  tvNsec : ℕ
  deriving DecidableEq, Repr

/-- The variables of the program. -/
structure State where
  domain1State : DomainState
  masterState : MasterState
  scAnaInState : SlaveConfigState
  counter : ℕ
  blink : Bool
  wakeupTime : Timespec
  /-- what `main` returns -/
  ret : Option ℤ
  /-- history: the lines printed -/
  lines : List Line
  /-- history: the bytes written to `domain1_pd + off_dig_out` -/
  digOut : List ℕ
  deriving DecidableEq, Repr

/-- What the calls of a cycle give. -/
structure Cycle where
  /-- `clock_nanosleep` -/
  nanosleep : ℤ
  domain : DomainState
  master : MasterState
  slave : SlaveConfigState
  deriving DecidableEq, Repr

/-! ## The program -/

/-- `PERIOD_NS`. -/
def periodNs : ℕ := 1000000

/-- `NSEC_PER_SEC`. -/
def nsecPerSec : ℕ := 1000000000

/-- `FREQUENCY`. -/
def frequency : ℕ := nsecPerSec / periodNs

/-- `%02X`. -/
def hex (n : ℕ) : List Char :=
  let digits := (Nat.toDigits 16 n).map Char.toUpper
  List.replicate (2 - digits.length) '0' ++ digits

/-- The text of a line. -/
def Line.text (line : Line) : List Char :=
  let yes := line.value ≠ 0
  match line.kind with
  | .workingCounter => "Domain1: WC ".toList ++ decimal line.value ++ ".\n".toList
  | .wcState => "Domain1: State ".toList ++ decimal line.value ++ ".\n".toList
  | .slavesResponding => decimal line.value ++ " slave(s).\n".toList
  | .alStates => "AL states: 0x".toList ++ hex line.value ++ ".\n".toList
  | .linkUp => "Link is ".toList ++ (if yes then "up" else "down").toList ++ ".\n".toList
  | .alState => "AnaIn: State 0x".toList ++ hex line.value ++ ".\n".toList
  | .online => "AnaIn: ".toList ++ (if yes then "online" else "offline").toList ++ ".\n".toList
  | .operational =>
    "AnaIn: ".toList ++ (if yes then "" else "Not ").toList ++ "operational.\n".toList

/-- `if (new != old) printf(…)`. -/
def report (kind : Kind) (old new : ℕ) : List Line := if new ≠ old then [⟨kind, new⟩] else []

/-- `check_domain1_state`. -/
def checkDomain1State (s : State) (ds : DomainState) : State :=
  { s with
    lines := s.lines ++ report .workingCounter s.domain1State.workingCounter ds.workingCounter ++
      report .wcState s.domain1State.wcState ds.wcState
    domain1State := ds }

/-- `check_master_state`. -/
def checkMasterState (s : State) (ms : MasterState) : State :=
  { s with
    lines := s.lines ++
      report .slavesResponding s.masterState.slavesResponding ms.slavesResponding ++
      report .alStates s.masterState.alStates ms.alStates ++
      report .linkUp s.masterState.linkUp ms.linkUp
    masterState := ms }

/-- `check_slave_config_states`. -/
def checkSlaveConfigStates (s : State) (sc : SlaveConfigState) : State :=
  { s with
    lines := s.lines ++ report .alState s.scAnaInState.alState sc.alState ++
      report .online s.scAnaInState.online sc.online ++
      report .operational s.scAnaInState.operational sc.operational
    scAnaInState := sc }

/-- `cyclic_task`. -/
def cyclicTask (s : State) (c : Cycle) : State :=
  let s := checkDomain1State s c.domain
  let s :=
    if s.counter ≠ 0 then { s with counter := s.counter - 1 }
    else
      checkSlaveConfigStates
        (checkMasterState { s with counter := frequency, blink := !s.blink } c.master) c.slave
  { s with digOut := s.digOut ++ [if s.blink then 0x06 else 0x09] }

/-- `while (wakeup_time.tv_nsec >= NSEC_PER_SEC) { … }`. -/
def normalize (t : Timespec) : Timespec :=
  if nsecPerSec ≤ t.tvNsec then normalize ⟨t.tvSec + 1, t.tvNsec - nsecPerSec⟩ else t
termination_by t.tvNsec
decreasing_by
  simp only [nsecPerSec] at *
  omega

/-- The state in front of the loop, at this time of the clock. -/
def init (now : Timespec) : State :=
  ⟨⟨0, 0⟩, ⟨0, 0, 0⟩, ⟨0, 0, 0⟩, 0, false, ⟨now.tvSec + 1, 0⟩, none, [], []⟩

/-- The body of the loop; `none` behind its end. -/
def step (s : State) (c : Cycle) : Option State :=
  if s.ret.isSome then none
  else if c.nanosleep ≠ 0 then some { s with ret := some c.nanosleep }
  else
    let s := cyclicTask s c
    some { s with
      wakeupTime := normalize ⟨s.wakeupTime.tvSec, s.wakeupTime.tvNsec + periodNs⟩ }

/-- What has been printed. -/
def State.stdout (s : State) : List Char := s.lines.flatMap Line.text

/-! ## The time -/

theorem normalize_eq (t : Timespec) :
    normalize t = ⟨t.tvSec + t.tvNsec / nsecPerSec, t.tvNsec % nsecPerSec⟩ := by
  have hpos : 0 < nsecPerSec := by decide
  fun_induction normalize t with
  | case1 t hle ih =>
    simp only at ih
    rw [ih, Nat.mod_eq_sub_mod hle, Nat.div_eq_sub_div hpos hle, Nat.add_assoc, Nat.add_comm 1]
  | case2 t hlt =>
    rw [Nat.div_eq_of_lt (Nat.not_le.mp hlt), Nat.mod_eq_of_lt (Nat.not_le.mp hlt), Nat.add_zero]

/-- The wake-up time `n` periods behind the first one. -/
def wakeupAt (now : Timespec) (n : ℕ) : Timespec := ⟨now.tvSec + 1 + n / 1000, n % 1000 * periodNs⟩

theorem normalize_wakeupAt (now : Timespec) (n : ℕ) :
    normalize ⟨(wakeupAt now n).tvSec, (wakeupAt now n).tvNsec + periodNs⟩ =
      wakeupAt now (n + 1) := by
  simp only [normalize_eq, wakeupAt, nsecPerSec, periodNs, Timespec.mk.injEq]
  omega

/-! ## The slow part -/

/-- The number of cycles from one run of the slow part to the next. -/
def slowPeriod : ℕ := frequency + 1

/-- `counter` in front of cycle `n`. -/
def counterAt (n : ℕ) : ℕ := (slowPeriod - n % slowPeriod) % slowPeriod

/-- `blink` in front of cycle `n`. -/
def blinkAt (n : ℕ) : Bool := decide ((n + frequency) / slowPeriod % 2 = 1)

theorem frequency_eq : frequency = 1000 := rfl

theorem slowPeriod_eq : slowPeriod = 1001 := rfl

theorem counterAt_eq_zero_iff {n : ℕ} : counterAt n = 0 ↔ n % slowPeriod = 0 := by
  simp only [counterAt, slowPeriod_eq]
  omega

theorem counterAt_succ (n : ℕ) :
    counterAt (n + 1) = if counterAt n = 0 then frequency else counterAt n - 1 := by
  split
  next hzero =>
    rw [counterAt_eq_zero_iff, slowPeriod_eq] at hzero
    simp only [counterAt, slowPeriod_eq, frequency_eq]
    omega
  next hpos =>
    rw [counterAt_eq_zero_iff, slowPeriod_eq] at hpos
    simp only [counterAt, slowPeriod_eq]
    omega

theorem blinkAt_iff {n : ℕ} : blinkAt n = true ↔ (n + 1000) / 1001 % 2 = 1 := decide_eq_true_iff

theorem blinkAt_succ (n : ℕ) :
    blinkAt (n + 1) = if counterAt n = 0 then !blinkAt n else blinkAt n := by
  rw [Bool.eq_iff_iff]
  split
  next hzero =>
    rw [counterAt_eq_zero_iff, slowPeriod_eq] at hzero
    rw [Bool.not_eq_true', ← Bool.not_eq_true, blinkAt_iff, blinkAt_iff]
    omega
  next hpos =>
    rw [counterAt_eq_zero_iff, slowPeriod_eq] at hpos
    rw [blinkAt_iff, blinkAt_iff]
    omega

/-- The byte that cycle `n` writes. -/
def digOutAt (n : ℕ) : ℕ := if n / slowPeriod % 2 = 0 then 0x06 else 0x09

theorem digOutAt_eq (n : ℕ) : digOutAt n = if blinkAt (n + 1) then 0x06 else 0x09 := by
  have hiff : n / slowPeriod % 2 = 0 ↔ blinkAt (n + 1) = true := by
    rw [blinkAt_iff, slowPeriod_eq]
    omega
  simp only [digOutAt, hiff]

/-! ## The reports -/

/-- The quantity in the variables. -/
def State.stored (s : State) : Kind → ℕ
  | .workingCounter => s.domain1State.workingCounter
  | .wcState => s.domain1State.wcState
  | .slavesResponding => s.masterState.slavesResponding
  | .alStates => s.masterState.alStates
  | .linkUp => s.masterState.linkUp
  | .alState => s.scAnaInState.alState
  | .online => s.scAnaInState.online
  | .operational => s.scAnaInState.operational

/-- The quantity in what the calls of a cycle give. -/
def Cycle.sample (c : Cycle) : Kind → ℕ
  | .workingCounter => c.domain.workingCounter
  | .wcState => c.domain.wcState
  | .slavesResponding => c.master.slavesResponding
  | .alStates => c.master.alStates
  | .linkUp => c.master.linkUp
  | .alState => c.slave.alState
  | .online => c.slave.online
  | .operational => c.slave.operational

/-- The quantity is looked at in every cycle. -/
def Kind.fast : Kind → Bool
  | .workingCounter | .wcState => true
  | .slavesResponding | .alStates | .linkUp | .alState | .online | .operational => false

/-- The values in the lines of one kind. -/
def valuesOf (kind : Kind) (lines : List Line) : List ℕ :=
  (lines.filter fun line => line.kind = kind).map Line.value

/-- The new value, if it is not the old one. -/
def change (old new : ℕ) : List ℕ := if new ≠ old then [new] else []

theorem valuesOf_append (kind : Kind) (lines lines' : List Line) :
    valuesOf kind (lines ++ lines') = valuesOf kind lines ++ valuesOf kind lines' := by
  rw [valuesOf, List.filter_append, List.map_append]
  rfl

theorem valuesOf_report (kind kind' : Kind) (old new : ℕ) :
    valuesOf kind (report kind' old new) = if kind' = kind then change old new else [] := by
  by_cases hnew : new ≠ old <;> by_cases hkind : kind' = kind <;>
    simp [valuesOf, report, change, hnew, hkind]

/-- A cycle prints what has changed of the quantities that it looks at, -/
theorem cyclicTask_lines (s : State) (c : Cycle) (kind : Kind) :
    valuesOf kind (cyclicTask s c).lines =
      valuesOf kind s.lines ++
        if kind.fast || s.counter = 0 then change (s.stored kind) (c.sample kind) else [] := by
  by_cases hcounter : s.counter = 0
  · cases kind <;>
      simp [cyclicTask, hcounter, checkDomain1State, checkMasterState, checkSlaveConfigStates,
        valuesOf_append, valuesOf_report, State.stored, Cycle.sample]
  · cases kind <;>
      simp [cyclicTask, hcounter, checkDomain1State, valuesOf_append, valuesOf_report,
        State.stored, Cycle.sample, Kind.fast]

/-- and keeps them. -/
theorem cyclicTask_stored (s : State) (c : Cycle) (kind : Kind) :
    (cyclicTask s c).stored kind =
      if kind.fast || s.counter = 0 then c.sample kind else s.stored kind := by
  by_cases hcounter : s.counter = 0
  · cases kind <;>
      simp [cyclicTask, hcounter, checkDomain1State, checkMasterState, checkSlaveConfigStates,
        State.stored, Cycle.sample]
  · cases kind <;>
      simp [cyclicTask, hcounter, checkDomain1State, State.stored, Cycle.sample, Kind.fast]

/-- The cycles that look at a quantity. -/
def looks (kind : Kind) (cycles : List Cycle) : List Cycle :=
  if kind.fast then cycles
  else (cycles.zipIdx.filter fun x => x.2 % slowPeriod = 0).map Prod.fst

theorem looks_concat (kind : Kind) (cycles : List Cycle) (c : Cycle) :
    looks kind (cycles ++ [c]) =
      looks kind cycles ++ if kind.fast || counterAt cycles.length = 0 then [c] else [] := by
  cases hfast : kind.fast with
  | true => simp [looks, hfast]
  | false =>
    by_cases hzero : cycles.length % slowPeriod = 0 <;>
      simp [looks, hfast, List.zipIdx_append, counterAt_eq_zero_iff, hzero]

/-- One more value behind the others. -/
theorem destutter'_concat (a b : ℕ) (l : List ℕ) :
    (l ++ [b]).destutter' (· ≠ ·) a = l.destutter' (· ≠ ·) a ++ change (l.getLastD a) b := by
  induction l generalizing a with
  | nil =>
    rw [List.nil_append, List.destutter'_singleton]
    by_cases hab : a = b
    · simp [change, hab]
    · simp [change, hab, Ne.symm hab]
  | cons c l ih =>
    rw [List.cons_append, List.destutter'_cons, List.destutter'_cons, ih, ih, List.getLastD_cons]
    split
    · rfl
    · rename_i hac
      rw [not_not.mp hac]

/-- What has happened after these cycles. -/
structure After (now : Timespec) (cycles : List Cycle) (s : State) : Prop where
  ret : s.ret = none
  wakeup : s.wakeupTime = wakeupAt now cycles.length
  counter : s.counter = counterAt cycles.length
  blink : s.blink = blinkAt cycles.length
  digOut : s.digOut = (List.range cycles.length).map digOutAt
  stored : ∀ kind, s.stored kind = ((looks kind cycles).map (Cycle.sample · kind)).getLastD 0
  lines : ∀ kind, 0 :: valuesOf kind s.lines =
    ((looks kind cycles).map (Cycle.sample · kind)).destutter' (· ≠ ·) 0

variable {now : Timespec} {cycles : List Cycle} {s s' : State} {c : Cycle}

theorem after_init (now : Timespec) : After now [] (init now) where
  ret := rfl
  wakeup := rfl
  counter := rfl
  blink := rfl
  digOut := rfl
  stored kind := by cases kind <;> rfl
  lines kind := by cases kind <;> rfl

theorem cyclicTask_counter (s : State) (c : Cycle) :
    (cyclicTask s c).counter = if s.counter = 0 then frequency else s.counter - 1 := by
  by_cases hcounter : s.counter = 0 <;>
    simp [cyclicTask, checkDomain1State, checkMasterState, checkSlaveConfigStates, hcounter]

theorem cyclicTask_blink (s : State) (c : Cycle) :
    (cyclicTask s c).blink = if s.counter = 0 then !s.blink else s.blink := by
  by_cases hcounter : s.counter = 0 <;>
    simp [cyclicTask, checkDomain1State, checkMasterState, checkSlaveConfigStates, hcounter]

theorem cyclicTask_digOut (s : State) (c : Cycle) :
    (cyclicTask s c).digOut = s.digOut ++ [if (cyclicTask s c).blink then 0x06 else 0x09] := by
  by_cases hcounter : s.counter = 0 <;>
    simp [cyclicTask, checkDomain1State, checkMasterState, checkSlaveConfigStates, hcounter]

theorem cyclicTask_wakeupTime (s : State) (c : Cycle) :
    (cyclicTask s c).wakeupTime = s.wakeupTime := by
  by_cases hcounter : s.counter = 0 <;>
    simp [cyclicTask, checkDomain1State, checkMasterState, checkSlaveConfigStates, hcounter]

theorem cyclicTask_ret (s : State) (c : Cycle) : (cyclicTask s c).ret = s.ret := by
  by_cases hcounter : s.counter = 0 <;>
    simp [cyclicTask, checkDomain1State, checkMasterState, checkSlaveConfigStates, hcounter]

theorem After.step (h : After now cycles s) (hc : c.nanosleep = 0) (hstep : step s c = some s') :
    After now (cycles ++ [c]) s' := by
  have hlength : (cycles ++ [c]).length = cycles.length + 1 := by simp
  have hblink : (cyclicTask s c).blink = blinkAt (cycles.length + 1) := by
    rw [cyclicTask_blink, h.counter, h.blink, blinkAt_succ]
  rw [EthercatUser.step, h.ret] at hstep
  simp only [Option.isSome_none, Bool.false_eq_true, if_false, hc, ne_eq, not_true] at hstep
  obtain rfl := Option.some.inj hstep
  rw [cyclicTask_wakeupTime, h.wakeup, normalize_wakeupAt]
  refine ⟨(cyclicTask_ret s c).trans h.ret, by rw [hlength], ?_, by rw [hlength]; exact hblink,
    ?_, fun kind => ?_, fun kind => ?_⟩
  · rw [hlength, counterAt_succ, ← h.counter]
    exact cyclicTask_counter s c
  · refine (cyclicTask_digOut s c).trans ?_
    rw [hblink, h.digOut, hlength, List.range_succ, List.map_append, List.map_singleton,
      digOutAt_eq]
  · refine (cyclicTask_stored s c kind).trans ?_
    rw [h.counter, looks_concat]
    split
    · rw [List.map_append, List.map_singleton, List.getLastD_concat]
    · rw [List.append_nil, h.stored]
  · refine (congrArg (0 :: ·) (cyclicTask_lines s c kind)).trans ?_
    rw [← List.cons_append, h.lines, h.counter, looks_concat]
    split
    · rw [List.map_append, List.map_singleton, destutter'_concat, ← h.stored]
    · rw [List.append_nil, List.append_nil]

theorem run_after (h : run step (init now) cycles = some s)
    (hok : ∀ c ∈ cycles, c.nanosleep = 0) : After now cycles s := by
  have hpast := run_invariant_past
    (I := fun past t => (∀ c ∈ past, c.nanosleep = 0) → After now past t) ?_
    (fun _ => after_init now) h
  · rw [List.nil_append] at hpast
    exact hpast hok
  · intro past t c t' ht hstep hall
    have hpast := ht fun d hd => hall d (List.mem_append_left _ hd)
    exact hpast.step (hall c (by simp)) hstep

/-- **No drift.** Behind `n` cycles the next wake-up is exactly `n` periods after the first one,
and the nanoseconds of its time are below a second, as `clock_nanosleep` requires. -/
theorem run_wakeup (h : run step (init now) cycles = some s)
    (hok : ∀ c ∈ cycles, c.nanosleep = 0) :
    s.wakeupTime.tvSec * nsecPerSec + s.wakeupTime.tvNsec =
        (now.tvSec + 1) * nsecPerSec + cycles.length * periodNs ∧
      s.wakeupTime.tvNsec < nsecPerSec := by
  rw [(run_after h hok).wakeup]
  simp only [wakeupAt, nsecPerSec, periodNs]
  omega

/-- Two cycles in which a second slave appears. -/
def twoCycles : List Cycle :=
  [⟨0, ⟨1, 1⟩, ⟨1, 8, 1⟩, ⟨8, 1, 1⟩⟩, ⟨0, ⟨2, 1⟩, ⟨2, 8, 1⟩, ⟨8, 1, 1⟩⟩]

def startTime : Timespec := ⟨5, 7⟩

theorem run_twoCycles : ∃ s, run step (init startTime) twoCycles = some s := ⟨_, rfl⟩

theorem run_wakeup_twoCycles :
    ∃ s, run step (init startTime) twoCycles = some s ∧
      s.wakeupTime.tvSec * nsecPerSec + s.wakeupTime.tvNsec =
        (startTime.tvSec + 1) * nsecPerSec + twoCycles.length * periodNs ∧
      s.wakeupTime.tvNsec < nsecPerSec := by
  obtain ⟨s, hs⟩ := run_twoCycles
  exact ⟨s, hs, run_wakeup hs (by decide)⟩

/-- **Blinking.** The output changes in every 1001st cycle, starting with `0x06`; with 1000 cycles
a second that is not quite once a second. -/
theorem run_digOut (h : run step (init now) cycles = some s)
    (hok : ∀ c ∈ cycles, c.nanosleep = 0) :
    s.digOut = (List.range cycles.length).map fun n => if n / 1001 % 2 = 0 then 0x06 else 0x09 :=
  (run_after h hok).digOut

theorem run_digOut_twoCycles :
    ∃ s, run step (init startTime) twoCycles = some s ∧
      s.digOut = (List.range twoCycles.length).map fun n =>
        if n / 1001 % 2 = 0 then 0x06 else 0x09 := by
  obtain ⟨s, hs⟩ := run_twoCycles
  exact ⟨s, hs, run_digOut hs (by decide)⟩

/-- **Reports.** Of each quantity exactly those values are printed that differ from the value
before, starting from zero, among the values in the cycles that look at it: all cycles for the
domain, every 1001st for the master and the slave. -/
theorem run_lines (h : run step (init now) cycles = some s)
    (hok : ∀ c ∈ cycles, c.nanosleep = 0) (kind : Kind) :
    0 :: valuesOf kind s.lines =
      (0 :: (looks kind cycles).map (Cycle.sample · kind)).destutter (· ≠ ·) :=
  (run_after h hok).lines kind

theorem run_lines_twoCycles :
    ∃ s, run step (init startTime) twoCycles = some s ∧
      0 :: valuesOf .workingCounter s.lines =
        (0 :: (looks .workingCounter twoCycles).map (Cycle.sample · .workingCounter)).destutter
          (· ≠ ·) := by
  obtain ⟨s, hs⟩ := run_twoCycles
  exact ⟨s, hs, run_lines hs (by decide) .workingCounter⟩

end EthercatUser

end CppPlayground
