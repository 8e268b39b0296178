import Taskvisor.Shutdown.Coordinator
import Taskvisor.Shutdown.Tail

namespace Taskvisor.Shutdown.Verdict

open Lib Runtime.Base Registry.State Owner Tail Coordinator
open World (Action abandonScript)

variable {grace : Nat} {w w' : World} {key : Nat} {c : Caller} {trigger : ShutdownTrigger} {runtime : Bool}
  {stage : BeginStage} {channel : Channel}

def holds : Pc → Bool
  | .look _ => true
  | .begin _ _ _ stage => decide (stage ≠ .launch)
  | _ => false

def begins : Pc → Bool
  | .begin .. => true
  | _ => false

/-- What the place of a caller says about the coordinator. -/
structure Placed (lock : Option Nat) (started : Bool) (operation : Option Nat) (key : Nat) (pc : Pc) : Prop where
  holder : holds pc = true → lock = some key
  reader : pc = .read → started = true
  waiter : ∀ op, pc = .borrow op ∨ pc = .changed op → operation = some op

theorem Placed.mono {lock lock' operation operation' : Option Nat} {started started' : Bool} {pc : Pc}
    (h : Placed lock started operation key pc) (hlock : lock = some key → lock' = some key)
    (hstarted : started = true → started' = true) (hop : ∀ op, operation = some op → operation' = some op) :
    Placed lock' started' operation' key pc :=
  ⟨fun hp => hlock (h.holder hp), fun hp => hstarted (h.reader hp), fun op hp => hop op (h.waiter op hp)⟩

/-- What a wait on the channel returns. -/
def settled (channel : Channel) : Option ShutdownOutcome :=
  match channel.value with
  | some outcome => some outcome
  | none => if channel.sender then none else some .shuttingDown

def Idle (w : World) : Prop := ∀ op, w.tasks.lookup op = none

/-- No trigger has come. -/
structure Fresh (w : World) : Prop where
  channels : w.channels = []
  triggers : w.triggers = []
  operation : w.operation = none
  installs : w.installs = []
  installed : w.installed = false
  started : w.started = true → w.lease = 0
  tasks : Idle w
  verdicts : w.verdicts = []
  reports : w.reports = []
  begins : ∀ k c, w.callers.lookup k = some c → Verdict.begins c.pc = false

def rank : BeginStage → Nat
  | .mark => 0
  | .install => 1
  | .flag => 2
  | .start => 3
  | .unlock => 4
  | .launch => 5

/-- The first trigger is inside `begin_shutdown`. -/
structure Beginning (w : World) (key : Nat) (trigger : ShutdownTrigger) (stage : BeginStage) : Prop where
  caller : ∃ c runtime, w.callers.lookup key = some c ∧ c.pc = .begin trigger 0 runtime stage
  only : ∀ k c, w.callers.lookup k = some c → begins c.pc = true → k = key
  channels : w.channels = [⟨none, true⟩]
  triggers : w.triggers = [trigger]
  operation : w.operation = if rank stage ≤ 1 then none else some 0
  installs : w.installs = w.operation.toList
  installed : w.installed = decide (2 < rank stage)
  started : w.started = decide (3 < rank stage)
  closed : 0 < rank stage → w.shared.shuttingDown = true
  tasks : Idle w
  verdicts : w.verdicts = []
  reports : w.reports = []

/-- The outcome is awaited from the detached owner, published by it, or the
owner was lost or never launched. -/
inductive Answered (grace : Nat) (w : World) (trigger : ShutdownTrigger) : Channel → Prop
  | running (t : Task) (ht : w.tasks.lookup 0 = some t) (hother : ∀ op, op ≠ 0 → w.tasks.lookup op = none)
      (htrigger : t.trigger = trigger) (ht' : Coherent grace t) (hr : w.reports = []) : Answered grace w trigger ⟨none, true⟩
  | published (r : Report) (ht : Idle w) (hr : w.reports = [(0, r)]) (hs : Settled trigger r) :
      Answered grace w trigger ⟨some (verdict grace trigger r), false⟩
  | unlaunched (ht : Idle w) (hr : w.reports = []) : Answered grace w trigger ⟨some .shuttingDown, false⟩
  | lost (ht : Idle w) (hr : w.reports = []) : Answered grace w trigger ⟨none, false⟩

theorem Answered.congr (h : Answered grace w trigger channel) (ht : w'.tasks = w.tasks) (hr : w'.reports = w.reports) :
    Answered grace w' trigger channel := by
  have hidle : Idle w → Idle w' := fun hi op => ht ▸ hi op
  cases h with
  | running t h0 hother htrigger hcoherent hn =>
      exact .running t (ht ▸ h0) (fun op hne => ht ▸ hother op hne) htrigger hcoherent (hr.trans hn)
  | published r hi hn hs => exact .published r (hidle hi) (hr.trans hn) hs
  | unlaunched hi hn => exact .unlaunched (hidle hi) (hr.trans hn)
  | lost hi hn => exact .lost (hidle hi) (hr.trans hn)

/-- The operation is installed and its trigger has left. -/
structure Installed (grace : Nat) (w : World) (trigger : ShutdownTrigger) (channel : Channel) : Prop where
  channels : w.channels = [channel]
  triggers : w.triggers = [trigger]
  operation : w.operation = some 0
  installs : w.installs = [0]
  installed : w.installed = true
  started : w.started = true
  closed : w.shared.shuttingDown = true
  begins : ∀ k c, w.callers.lookup k = some c → Verdict.begins c.pc = false
  answered : Answered grace w trigger channel
  verdicts : ∀ v ∈ w.verdicts, settled channel = some v.2

inductive Place (grace : Nat) (w : World) : Prop
  | fresh (h : Fresh w)
  | beginning (key : Nat) (trigger : ShutdownTrigger) (stage : BeginStage) (h : Beginning w key trigger stage)
  | installed (trigger : ShutdownTrigger) (channel : Channel) (h : Installed grace w trigger channel)

/-- What the rest of the last owner's drop may still be. -/
def Abandoning (w : World) (script : List AbandonInstr) : Prop :=
  script = [] ∨ script = abandonScript ∨ w.operation = none ∧ (script = [.mark, .start, .cancelRuntime] ∨
    w.shared.shuttingDown = true ∧ (script = [.start, .cancelRuntime] ∨ script = [.cancelRuntime]))

structure Sound (grace : Nat) (w : World) : Prop where
  aligned : Aligned w.shared.pending
  calm : w.panicked = false
  closed : w.started = true → w.shared.shuttingDown = true
  vacant : w.lease = 0 → ∀ k, w.callers.lookup k = none
  keys : ∀ k c, w.callers.lookup k = some c → k < w.nextCaller
  abandoning : ∀ script, w.abandoning = some script → w.lease = 0 ∧ Abandoning w script
  placed : ∀ k c, w.callers.lookup k = some c → Placed w.lock w.started w.operation k c.pc
  place : Place grace w

theorem sound_new : Sound grace World.new where
  aligned := aligned_new
  calm := rfl
  closed := nofun
  vacant := fun _ _ => rfl
  keys := fun _ _ h => (nomatch h)
  abandoning := fun _ h => (nomatch h)
  placed := fun _ _ h => (nomatch h)
  place := .fresh ⟨rfl, rfl, rfl, rfl, rfl, nofun, fun _ => rfl, rfl, rfl, fun _ _ h => (nomatch h)⟩

theorem Sound.leased (h : Sound grace w) (hk : w.callers.lookup key = some c) : w.lease ≠ 0 := fun hl => by
  rw [h.vacant hl key] at hk
  cases hk

/-- A caller moves on outside of `begin_shutdown`. -/
theorem Sound.recall (h : Sound grace w) (hlease : w.lease ≠ 0)
    (hold : ∀ c, w.callers.lookup key = some c → begins c.pc = false) {callers : Table Nat Caller} {new : Option Caller}
    (hlookup : ∀ k, callers.lookup k = if k = key then new else w.callers.lookup k) {lock : Option Nat}
    {running startup : Bool} {next : Nat} (hnext : w.nextCaller ≤ next) (hkey : key < next)
    (hlock : lock = w.lock ∨ w.lock = none ∨ w.lock = some key)
    (hnew : ∀ c, new = some c → begins c.pc = false ∧ Placed lock w.started w.operation key c.pc) :
    Sound grace { w with callers, lock, running, startup, nextCaller := next } := by
  have hbegins : (∀ k c, w.callers.lookup k = some c → begins c.pc = false) →
      ∀ k c, callers.lookup k = some c → begins c.pc = false := by
    intro hb k c hc
    rw [hlookup] at hc
    split at hc
    · exact (hnew c hc).1
    · exact hb k c hc
  refine ⟨h.aligned, h.calm, h.closed, fun hl => absurd hl hlease, fun k c hc => ?_, h.abandoning, fun k c hc => ?_, ?_⟩
  · rw [hlookup] at hc
    split at hc
    · next he => exact he ▸ hkey
    · exact (h.keys k c hc).trans_le hnext
  · rw [hlookup] at hc
    split at hc
    · next he => exact he ▸ (hnew c hc).2
    · next he =>
      refine (h.placed k c hc).mono (fun hl => ?_) (fun hs => hs) fun _ ho => ho
      rcases hlock with rfl | hn | hs
      · exact hl
      · rw [hn] at hl
        cases hl
      · rw [hs] at hl
        exact absurd (Option.some.inj hl).symm he
  · cases h.place with
    | fresh hf =>
        exact .fresh ⟨hf.channels, hf.triggers, hf.operation, hf.installs, hf.installed, hf.started, hf.tasks,
          hf.verdicts, hf.reports, hbegins hf.begins⟩
    | beginning k₁ trigger stage hb =>
        obtain ⟨c₁, runtime, hc₁, hpc⟩ := hb.caller
        have hne : k₁ ≠ key := fun he => by
          have hfalse := hold c₁ (he ▸ hc₁)
          rw [hpc] at hfalse
          cases hfalse
        refine .beginning k₁ trigger stage ⟨⟨c₁, runtime, by rw [hlookup, if_neg hne, hc₁], hpc⟩, fun k c hc hb' => ?_,
          hb.channels, hb.triggers, hb.operation, hb.installs, hb.installed, hb.started, hb.closed, hb.tasks,
          hb.verdicts, hb.reports⟩
        change callers.lookup k = some c at hc
        rw [hlookup] at hc
        split at hc
        · rw [(hnew c hc).1] at hb'
          cases hb'
        · exact hb.only k c hc hb'
    | installed trigger channel hi =>
        exact .installed trigger channel ⟨hi.channels, hi.triggers, hi.operation, hi.installs, hi.installed, hi.started,
          hi.closed, hbegins hi.begins, hi.answered.congr rfl rfl, hi.verdicts⟩

theorem Sound.beginning (h : Sound grace w) {op : Nat} (hk : w.callers.lookup key = some c)
    (hpc : c.pc = .begin trigger op runtime stage) : op = 0 ∧ Beginning w key trigger stage := by
  have hb : begins c.pc = true := by rw [hpc]; rfl
  cases h.place with
  | fresh hf => rw [hf.begins key c hk] at hb; cases hb
  | installed trigger channel hi => rw [hi.begins key c hk] at hb; cases hb
  | beginning k trigger stage hb' =>
      obtain rfl := hb'.only key c hk hb
      obtain ⟨c₁, runtime₁, hc₁, hpc₁⟩ := hb'.caller
      rw [hk] at hc₁
      cases hc₁
      rw [hpc] at hpc₁
      cases hpc₁
      exact ⟨rfl, hb'⟩

/-- `begin_shutdown` gets on by one statement. -/
theorem Sound.advance (h : Sound grace w) (hk : w.callers.lookup key = some c)
    (hpc : c.pc = .begin trigger 0 runtime stage) (hstage : stage ≠ .launch) {next : BeginStage}
    {lock operation : Option Nat} {installs : List Nat} {installed started shuttingDown : Bool}
    (hlock : lock = w.lock ∨ next = .launch) (hle : rank stage ≤ rank next)
    (hop : operation = if rank next ≤ 1 then none else some 0) (hins : installs = operation.toList)
    (hinst : installed = decide (2 < rank next)) (hst : started = decide (3 < rank next))
    (hclosed : 0 < rank next → shuttingDown = true) :
    Sound grace { w with
      callers := w.callers.insert key { c with pc := .begin trigger 0 runtime next }
      lock, operation, installs, installed, started, shared := { w.shared with shuttingDown } } := by
  obtain ⟨-, hb⟩ := h.beginning hk hpc
  have hlease := h.leased hk
  have hheld : w.lock = some key := (h.placed key c hk).holder (by rw [hpc]; exact decide_eq_true hstage)
  refine ⟨h.aligned, h.calm, fun hs => ?_, fun hl => absurd hl hlease, fun k c' hc => ?_,
    fun script hs => absurd (h.abandoning script hs).1 hlease, fun k c' hc => ?_, .beginning key trigger next ?_⟩
  · have hs : started = true := hs
    rw [hst] at hs
    exact hclosed ((Nat.zero_lt_succ 2).trans (of_decide_eq_true hs))
  · obtain ⟨rfl, -⟩ | ⟨-, hc⟩ := Table.of_lookup_insert hc
    · exact h.keys k c hk
    · exact h.keys k c' hc
  · obtain ⟨rfl, rfl⟩ | ⟨he, hc⟩ := Table.of_lookup_insert hc
    · refine ⟨fun hh => ?_, nofun, fun op ho => ho.elim nofun nofun⟩
      have hne : next ≠ .launch := of_decide_eq_true hh
      exact (hlock.resolve_right hne).trans hheld
    · refine (h.placed k c' hc).mono (fun hl => ?_) (fun hs => ?_) fun op ho => ?_
      · rw [hheld] at hl
        exact absurd (Option.some.inj hl).symm he
      · rw [hb.started] at hs
        rw [hst]
        exact decide_eq_true ((of_decide_eq_true hs).trans_le hle)
      · rw [hb.operation] at ho
        split at ho
        · cases ho
        · next hr => rw [hop, if_neg fun hr' => hr (hle.trans hr'), ho]
  · refine ⟨⟨{ c with pc := .begin trigger 0 runtime next }, runtime, ?_, rfl⟩, fun k c' hc hb' => ?_, hb.channels, hb.triggers, hop, hins, hinst, hst, hclosed,
      hb.tasks, hb.verdicts, hb.reports⟩
    · exact AList.lookup_insert _
    · obtain ⟨he, -⟩ | ⟨-, hc⟩ := Table.of_lookup_insert hc
      · exact he
      · exact hb.only k c' hc hb'

/-- `begin_shutdown` returns to its caller, with the owner launched or the
outcome sent. -/
theorem Sound.launch (h : Sound grace w) (hk : w.callers.lookup key = some c)
    (hpc : c.pc = .begin trigger 0 runtime .launch) : Sound grace (w.beginStep key c trigger 0 runtime .launch) := by
  obtain ⟨-, hb⟩ := h.beginning hk hpc
  have hlease := h.leased hk
  have hop : w.operation = some 0 := hb.operation
  have hstarted : w.started = true := hb.started
  have hlookup : ∀ k, (w.callers.insert key { c with pc := .borrow 0 }).lookup k =
      if k = key then some { c with pc := .borrow 0 } else w.callers.lookup k :=
    fun k => Table.lookup_insert_ite w.callers key k _
  have hkeys : ∀ k c', (w.callers.insert key { c with pc := .borrow 0 }).lookup k = some c' → k < w.nextCaller := by
    intro k c' hc
    rw [hlookup] at hc
    split at hc
    · next he => exact he ▸ h.keys key c hk
    · exact h.keys k c' hc
  have hplaced : ∀ k c', (w.callers.insert key { c with pc := .borrow 0 }).lookup k = some c' →
      Placed w.lock w.started w.operation k c'.pc := by
    intro k c' hc
    rw [hlookup] at hc
    split at hc
    · cases hc
      exact ⟨nofun, nofun, fun op ho => ho.elim (fun he => by cases he; exact hop) nofun⟩
    · exact h.placed k c' hc
  have hbegins : ∀ k c', (w.callers.insert key { c with pc := .borrow 0 }).lookup k = some c' → begins c'.pc = false := by
    intro k c' hc
    rw [hlookup] at hc
    split at hc
    · cases hc
      rfl
    · next he => exact Bool.eq_false_iff.mpr fun hb' => he (hb.only k c' hc hb')
  have hclosed : w.shared.shuttingDown = true := hb.closed (by decide)
  have hinstalls : w.installs = [0] := by rw [hb.installs, hop]; rfl
  have hverdicts : ∀ {channel : Channel}, ∀ v ∈ w.verdicts, settled channel = some v.2 := by
    rw [hb.verdicts]
    exact fun v hv => (nomatch hv)
  cases runtime with
  | true =>
      refine ⟨h.aligned, h.calm, h.closed, fun hl => absurd hl hlease, hkeys,
        fun script hs => absurd (h.abandoning script hs).1 hlease, hplaced, .installed trigger ⟨none, true⟩ ?_⟩
      refine ⟨hb.channels, hb.triggers, hop, hinstalls, hb.installed, hstarted, hclosed, hbegins, ?_, hverdicts⟩
      refine .running ⟨trigger, .mark, .new⟩ (AList.lookup_insert _) (fun op ho => ?_) rfl (coherent_new trigger) hb.reports
      exact (AList.lookup_insert_ne ho).trans (hb.tasks op)
  | false =>
      refine ⟨h.aligned, h.calm, h.closed, fun hl => absurd hl hlease, hkeys,
        fun script hs => absurd (h.abandoning script hs).1 hlease, hplaced,
        .installed trigger ⟨some .shuttingDown, false⟩ ?_⟩
      refine ⟨?_, hb.triggers, hop, hinstalls, hb.installed, hstarted, hclosed, hbegins, .unlaunched hb.tasks hb.reports,
        hverdicts⟩
      change w.channels.set 0 _ = _
      rw [hb.channels]
      rfl

theorem Sound.beginStep (h : Sound grace w) {op : Nat} (hk : w.callers.lookup key = some c)
    (hpc : c.pc = .begin trigger op runtime stage) : Sound grace (w.beginStep key c trigger op runtime stage) := by
  obtain ⟨rfl, hb⟩ := h.beginning hk hpc
  cases stage with
  | mark =>
      exact h.advance hk hpc (by decide) (.inl rfl) (by decide) hb.operation hb.installs hb.installed hb.started fun _ => rfl
  | install =>
      refine h.advance hk hpc (by decide) (.inl rfl) (by decide) rfl ?_ hb.installed hb.started
        fun _ => hb.closed (by decide)
      rw [hb.installs, hb.operation]
      rfl
  | flag =>
      exact h.advance hk hpc (by decide) (.inl rfl) (by decide) hb.operation hb.installs rfl hb.started
        fun _ => hb.closed (by decide)
  | start =>
      exact h.advance hk hpc (by decide) (.inl rfl) (by decide) hb.operation hb.installs hb.installed rfl
        fun _ => hb.closed (by decide)
  | unlock =>
      exact h.advance hk hpc (by decide) (.inr rfl) (by decide) hb.operation hb.installs hb.installed hb.started
        fun _ => hb.closed (by decide)
  | launch => exact h.launch hk hpc

/-- The places outside of the coordinator. -/
def plain : Pc → Bool
  | .look _ => false
  | .begin .. => false
  | .read => false
  | .borrow _ => false
  | .changed _ => false
  | _ => true

theorem begins_of_plain {pc : Pc} (h : plain pc = true) : begins pc = false := by
  cases pc <;> first | rfl | cases h

theorem placed_of_plain {lock operation : Option Nat} {started : Bool} {pc : Pc} (h : plain pc = true) :
    Placed lock started operation key pc := by
  refine ⟨fun hp => ?_, fun hp => ?_, fun op hp => ?_⟩
  · cases pc with
    | look | begin => cases h
    | _ => cases hp
  · rw [hp] at h
    cases h
  · rcases hp with rfl | rfl <;> cases h

theorem Sound.move (h : Sound grace w) (hk : w.callers.lookup key = some c) (hc : begins c.pc = false)
    {c' : Caller} {running startup : Bool} (hc' : begins c'.pc = false)
    (hp : Placed w.lock w.started w.operation key c'.pc) :
    Sound grace { w with callers := w.callers.insert key c', running, startup } :=
  h.recall (h.leased hk) (fun c₁ h₁ => by rw [hk] at h₁; cases h₁; exact hc) (fun k => Table.lookup_insert_ite _ _ k _)
    (Nat.le_refl _) (h.keys key c hk) (.inl rfl) fun c₁ h₁ => by cases h₁; exact ⟨hc', hp⟩

theorem Sound.plain (h : Sound grace w) (hk : w.callers.lookup key = some c) (hc : begins c.pc = false)
    {c' : Caller} {running startup : Bool} (hc' : Verdict.plain c'.pc = true) :
    Sound grace { w with callers := w.callers.insert key c', running, startup } :=
  h.move hk hc (begins_of_plain hc') (placed_of_plain hc')

theorem Sound.leave (h : Sound grace w) (hk : w.callers.lookup key = some c) (hc : begins c.pc = false) :
    Sound grace (w.leave key c) :=
  h.recall (h.leased hk) (fun c₁ h₁ => by rw [hk] at h₁; cases h₁; exact hc)
    (fun k => Table.lookup_erase_ite _ _ k) (Nat.le_refl _) (h.keys key c hk) (.inl rfl)
    fun _ hnone => (nomatch hnone)

/-- A wait returns the outcome that is there. -/
theorem Sound.returned (h : Sound grace w) {op : Nat} (hop : w.operation = some op) (hchannel : w.channels[op]? = some channel)
    {outcome : ShutdownOutcome} (hsettled : settled channel = some outcome) (k : Nat) :
    Sound grace { w with verdicts := w.verdicts ++ [(k, outcome)] } := by
  refine ⟨h.aligned, h.calm, h.closed, h.vacant, h.keys, h.abandoning, h.placed, ?_⟩
  cases h.place with
  | fresh hf => rw [hf.operation] at hop; cases hop
  | beginning k₁ trigger stage hb =>
      rw [hb.channels, List.getElem?_singleton] at hchannel
      split at hchannel
      · cases hchannel
        cases hsettled
      · cases hchannel
  | installed trigger channel₁ hi =>
      rw [hi.operation] at hop
      cases hop
      rw [hi.channels] at hchannel
      cases hchannel
      refine .installed trigger channel ⟨hi.channels, hi.triggers, hi.operation, hi.installs, hi.installed, hi.started,
        hi.closed, hi.begins, hi.answered.congr rfl rfl, fun v hv => ?_⟩
      rcases List.mem_append.mp hv with hv | hv
      · exact hi.verdicts v hv
      · rw [List.mem_singleton.mp hv]
        exact hsettled

/-- A caller that sees the started token finds the operation. -/
theorem Sound.operation (h : Sound grace w) (hk : w.callers.lookup key = some c) (hs : w.started = true) :
    w.operation = some 0 := by
  cases h.place with
  | fresh hf => exact absurd (hf.started hs) (h.leased hk)
  | beginning k trigger stage hb =>
      rw [hb.started] at hs
      rw [hb.operation, if_neg]
      have := of_decide_eq_true hs
      omega
  | installed trigger channel hi => exact hi.operation

/-- The first trigger creates the operation. -/
theorem Sound.create (h : Sound grace w) (hk : w.callers.lookup key = some c) (hpc : c.pc = .look trigger)
    (hop : w.operation = none) : w.channels.length = 0 ∧ Sound grace (({ w with
      channels := w.channels ++ [⟨none, true⟩], triggers := w.triggers ++ [trigger] } : World).move key c
        (.begin trigger 0 runtime .mark)) := by
  have hlease := h.leased hk
  have hheld : w.lock = some key := (h.placed key c hk).holder (by rw [hpc]; rfl)
  have hf : Fresh w := by
    cases h.place with
    | fresh hf => exact hf
    | installed trigger channel hi => rw [hi.operation] at hop; cases hop
    | beginning k₁ trigger₁ stage hb =>
        -- the trigger inside still has the lock
        obtain ⟨c₁, runtime, hc₁, hpc₁⟩ := hb.caller
        rw [hb.operation] at hop
        have hle : rank stage ≤ 1 := by
          by_contra hn
          rw [if_neg hn] at hop
          cases hop
        have hheld₁ := (h.placed k₁ c₁ hc₁).holder (by rw [hpc₁]; cases stage <;> first | rfl | (simp [rank] at hle))
        rw [hheld] at hheld₁
        cases hheld₁
        rw [hk] at hc₁
        cases hc₁
        rw [hpc] at hpc₁
        cases hpc₁
  have hstarted : w.started = false := Bool.eq_false_iff.mpr fun hs => hlease (hf.started hs)
  have hlookup : ∀ k, (w.callers.insert key { c with pc := .begin trigger 0 runtime .mark }).lookup k =
      if k = key then some { c with pc := .begin trigger 0 runtime .mark } else w.callers.lookup k :=
    fun k => Table.lookup_insert_ite _ _ k _
  refine ⟨by rw [hf.channels]; rfl, h.aligned, h.calm, h.closed, fun hl => absurd hl hlease, fun k c' hc => ?_,
    fun script hs => absurd (h.abandoning script hs).1 hlease, fun k c' hc => ?_, .beginning key trigger .mark ?_⟩
  · change (w.callers.insert key _).lookup k = some c' at hc
    rw [hlookup] at hc
    split at hc
    · next he => exact he ▸ h.keys key c hk
    · exact h.keys k c' hc
  · change (w.callers.insert key _).lookup k = some c' at hc
    rw [hlookup] at hc
    split at hc
    · next he =>
      cases hc
      exact ⟨fun _ => he ▸ hheld, nofun, fun op ho => ho.elim nofun nofun⟩
    · exact h.placed k c' hc
  · refine ⟨⟨{ c with pc := .begin trigger 0 runtime .mark }, runtime, AList.lookup_insert _, rfl⟩, fun k c' hc hb => ?_,
      ?_, ?_, hop, ?_, hf.installed, hstarted, nofun, hf.tasks, hf.verdicts, hf.reports⟩
    · change (w.callers.insert key _).lookup k = some c' at hc
      rw [hlookup] at hc
      split at hc
      · next he => exact he
      · rw [hf.begins k c' hc] at hb
        cases hb
    · change w.channels ++ _ = _
      rw [hf.channels]
      rfl
    · change w.triggers ++ _ = _
      rw [hf.triggers]
      rfl
    · change w.installs = w.operation.toList
      rw [hf.installs, hop]
      rfl

/-- A caller takes a step outside of the coordinator, or leaves. -/
inductive Strolled (w : World) (key : Nat) (c : Caller) : World → Prop
  | move (c' : Caller) (running startup : Bool) (hc' : plain c'.pc = true) :
      Strolled w key c { w with callers := w.callers.insert key c', running, startup }
  | leave : Strolled w key c (w.leave key c)

theorem Strolled.ite {cond : Bool} {w₁ w₂ : World} (h₁ : Strolled w key c w₁) (h₂ : Strolled w key c w₂) :
    Strolled w key c (if cond then w₁ else w₂) := by
  cases cond
  · exact h₂
  · exact h₁

theorem strolled_move {pc : Pc} (hpc : plain pc = true) : Strolled w key c (w.move key c pc) := .move _ _ _ hpc

theorem strolled_commit {pc : Pc} {startup : Bool} (hpc : plain pc = true) :
    Strolled w key c (({ w with startup } : World).commit key c pc) := .move _ _ _ hpc

theorem strolled {choice : Choice} (hc : plain c.pc = true) (hlock : ∀ trigger, c.pc ≠ .lock trigger)
    (hwait : c.pc ≠ .waitStarted) (hs : w.call key c choice = some w') : Strolled w key c w' := by
  unfold World.call at hs
  split at hs
  case h_1 =>
    split at hs
    · cases hs; exact .leave
    · cases hs; exact .move _ _ _ rfl
  case h_2 => cases hs; exact strolled_move (by cases c.empty <;> rfl)
  case h_4 | h_13 =>
    split at hs
    · cases hs; exact strolled_commit rfl
    · cases hs; exact strolled_move rfl
  case h_5 | h_9 | h_14 => cases hs; exact strolled_commit rfl
  case h_7 => cases hs; exact strolled_move (by cases w.started <;> rfl)
  case h_8 | h_16 | h_17 | h_24 | h_25 =>
    split at hs
    · cases hs; exact strolled_move rfl
    · cases hs
  case h_11 | h_18 | h_21 | h_26 => cases hs; exact strolled_move rfl
  case h_19 | h_22 => cases hs; exact .ite (strolled_move rfl) .leave
  case h_27 trigger hpc => exact absurd hpc (hlock trigger)
  case h_30 hpc => exact absurd hpc hwait
  case h_28 hpc | h_29 hpc | h_31 hpc | h_32 hpc | h_33 hpc => rw [hpc] at hc; cases hc
  case h_34 => cases hs
  all_goals cases hs; exact .leave

theorem Sound.strolled (h : Sound grace w) (hk : w.callers.lookup key = some c) (hc : Verdict.plain c.pc = true)
    (hs : Strolled w key c w') : Sound grace w' := by
  cases hs with
  | move c' running startup hc' => exact h.plain hk (begins_of_plain hc) hc'
  | leave => exact h.leave hk (begins_of_plain hc)

theorem Sound.call (h : Sound grace w) (hk : w.callers.lookup key = some c) {choice : Choice}
    (hs : w.call key c choice = some w') : Sound grace w' := by
  have hkey := h.keys key c hk
  have hlease := h.leased hk
  have honly : ∀ {pc : Pc}, begins pc = false → c.pc = pc → ∀ c₁, w.callers.lookup key = some c₁ → begins c₁.pc = false := by
    intro pc hb hpc c₁ h₁
    rw [hk] at h₁
    cases h₁
    rw [hpc, hb]
  cases hpc : c.pc with
  | lock trigger =>
      cases choice <;> simp only [World.call, hpc, reduceCtorEq] at hs
      split at hs
      · cases hs
      · next hnone =>
        cases hs
        refine h.recall hlease (honly rfl hpc) (fun k => Table.lookup_insert_ite _ _ k _) (Nat.le_refl _) hkey
          (.inr (.inl (by simpa using hnone))) fun c₁ h₁ => ?_
        cases h₁
        exact ⟨rfl, fun _ => rfl, nofun, fun op ho => ho.elim nofun nofun⟩
  | look trigger =>
      cases choice <;> simp only [World.call, hpc, reduceCtorEq] at hs
      split at hs
      · next op hop =>
        cases hs
        refine h.recall hlease (honly rfl hpc) (fun k => Table.lookup_insert_ite _ _ k _) (Nat.le_refl _) hkey
          (.inr (.inr ((h.placed key c hk).holder (by rw [hpc]; rfl)))) fun c₁ h₁ => ?_
        cases h₁
        exact ⟨rfl, nofun, nofun, fun op' ho => ho.elim (fun he => by cases he; exact hop) nofun⟩
      · next hop =>
        cases hs
        obtain ⟨hlength, hsound⟩ := h.create hk hpc hop
        rw [hlength]
        exact hsound
  | begin trigger op runtime stage =>
      cases choice <;> simp only [World.call, hpc, reduceCtorEq] at hs
      cases hs
      exact h.beginStep hk hpc
  | waitStarted =>
      cases choice <;> simp only [World.call, hpc, reduceCtorEq] at hs
      split at hs
      · next hstarted =>
        cases hs
        exact h.move hk (by rw [hpc]; rfl) rfl ⟨nofun, fun _ => hstarted, fun op ho => ho.elim nofun nofun⟩
      · cases hs
  | read =>
      have hop := h.operation hk ((h.placed key c hk).reader hpc)
      cases choice <;> simp only [World.call, hpc, hop, reduceCtorEq] at hs
      split at hs
      · cases hs
      · cases hs
        exact h.move hk (by rw [hpc]; rfl) rfl
          ⟨nofun, nofun, fun op ho => ho.elim (fun he => by cases he; exact hop) nofun⟩
  | borrow op =>
      have hop := (h.placed key c hk).waiter op (.inl hpc)
      cases choice <;> simp only [World.call, hpc, reduceCtorEq] at hs
      split at hs
      · next outcome hvalue =>
        cases hs
        obtain ⟨channel, hchannel, hv⟩ := Option.bind_eq_some_iff.mp hvalue
        exact (h.returned hop hchannel (by simp [settled, hv]) key).leave hk (by rw [hpc]; rfl)
      · cases hs
        exact h.move hk (by rw [hpc]; rfl) rfl
          ⟨nofun, nofun, fun op' ho => ho.elim nofun fun he => by cases he; exact hop⟩
  | changed op =>
      have hop := (h.placed key c hk).waiter op (.inr hpc)
      cases choice <;> simp only [World.call, hpc, reduceCtorEq] at hs
      split at hs
      · next channel hchannel =>
        split at hs
        · cases hs
          exact h.move hk (by rw [hpc]; rfl) rfl
            ⟨nofun, nofun, fun op' ho => ho.elim (fun he => by cases he; exact hop) nofun⟩
        · next hvalue =>
          split at hs
          · cases hs
          · next hsender =>
            cases hs
            have hnone : channel.value = none := by simpa using hvalue
            exact (h.returned hop hchannel (by simp [settled, hnone, hsender]) key).leave hk (by rw [hpc]; rfl)
      · cases hs
  | _ =>
      have hplain : Verdict.plain c.pc = true := by rw [hpc]; rfl
      exact h.strolled hk hplain (Verdict.strolled hplain (by rw [hpc]; exact nofun) (by rw [hpc]; exact nofun) hs)

/-- A detached owner is that of the operation. -/
theorem Sound.tasked (h : Sound grace w) {op : Nat} {t : Task} (ht : w.tasks.lookup op = some t) :
    op = 0 ∧ Installed grace w t.trigger ⟨none, true⟩ ∧ Coherent grace t ∧ (∀ op, op ≠ 0 → w.tasks.lookup op = none) ∧
      w.reports = [] := by
  have hidle : ¬ Idle w := fun hi => by
    rw [hi op] at ht
    cases ht
  cases h.place with
  | fresh hf => exact absurd hf.tasks hidle
  | beginning k trigger stage hb => exact absurd hb.tasks hidle
  | installed trigger channel hi =>
      cases hi.answered with
      | published r ht hr hs => exact absurd ht hidle
      | unlaunched ht hr => exact absurd ht hidle
      | lost ht hr => exact absurd ht hidle
      | running t' ht' hother htrigger hcoherent hr =>
          have hop : op = 0 := by
            by_contra hne
            rw [hother op hne] at ht
            cases ht
          rw [hop, ht'] at ht
          cases ht
          exact ⟨hop, htrigger ▸ hi, hcoherent, hother, hr⟩

theorem Abandoning.mono {script : List AbandonInstr} (h : Abandoning w script) (hop : w'.operation = w.operation)
    (hclosed : w.shared.shuttingDown = true → w'.shared.shuttingDown = true) : Abandoning w' script :=
  h.imp (fun he => he) (Or.imp (fun he => he) fun ⟨ho, hs⟩ => ⟨hop.trans ho, hs.imp (fun he => he) fun hs =>
    ⟨hclosed hs.1, hs.2⟩⟩)

/-- The owner gets on, or it is done with its channel. -/
theorem Sound.answer (h : Sound grace w) {t : Task} (ht : w.tasks.lookup 0 = some t) {shared : Shared}
    {tasks : Table Nat Task} {channels : List Channel} {reports : List (Nat × Report)}
    (haligned : Aligned shared.pending) (hclosed : w.shared.shuttingDown = true → shared.shuttingDown = true)
    {channel : Channel} (hchannels : channels = [channel])
    (hanswered : Answered grace { w with shared, tasks, channels, reports } t.trigger channel) :
    Sound grace { w with shared, tasks, channels, reports } := by
  obtain ⟨-, hi, -, -, -⟩ := h.tasked ht
  refine ⟨haligned, h.calm, fun hs => hclosed (h.closed hs), h.vacant, h.keys, fun script hs => ?_, h.placed,
    .installed t.trigger channel ⟨hchannels, hi.triggers, hi.operation, hi.installs, hi.installed, hi.started,
      hclosed hi.closed, hi.begins, hanswered, fun v hv => ?_⟩⟩
  · exact ⟨(h.abandoning script hs).1, (h.abandoning script hs).2.mono rfl hclosed⟩
  · have hsettled := hi.verdicts v hv
    cases hsettled

theorem Sound.owner (h : Sound grace w) {op : Nat} {t t' : Task} (ht : w.tasks.lookup op = some t) {answer : Answer}
    {shared : Shared} (hs : t.step grace w.shared answer = some (shared, t')) :
    Sound grace { w with shared, tasks := w.tasks.insert op t' } := by
  obtain ⟨rfl, hi, hcoherent, hother, hr⟩ := h.tasked ht
  obtain ⟨hcoherent', haligned, htrigger, hclosed⟩ := hcoherent.step h.aligned hs
  refine h.answer ht haligned hclosed hi.channels (.running t' (AList.lookup_insert _) (fun op hne => ?_) htrigger
    hcoherent' hr)
  exact (AList.lookup_insert_ne hne).trans (hother op hne)

theorem idle_erase (hother : ∀ op, op ≠ 0 → w.tasks.lookup op = none) (op : Nat) : (w.tasks.erase 0).lookup op = none := by
  rw [Table.lookup_erase_ite]
  split
  · rfl
  · next hne => exact hother op hne

theorem Sound.publish (h : Sound grace w) {op : Nat} {t : Task} (ht : w.tasks.lookup op = some t)
    {outcome : ShutdownOutcome} (hstage : t.stage = .publish outcome) :
    Sound grace (({ w with tasks := w.tasks.erase op, reports := w.reports ++ [(op, t.report)] } : World).settle op
      ⟨some outcome, false⟩) := by
  obtain ⟨rfl, hi, hcoherent, hother, hr⟩ := h.tasked ht
  obtain ⟨rfl, hsettled⟩ := hcoherent.settled hstage
  have hset : ∀ channel : Channel, w.channels.set 0 channel = [channel] := fun channel => by rw [hi.channels]; rfl
  refine h.answer ht h.aligned (fun hx => hx) (hset _) (.published t.report (idle_erase hother) ?_ hsettled)
  change w.reports ++ _ = _
  rw [hr]
  rfl

theorem Sound.lose (h : Sound grace w) {op : Nat} {t : Task} (ht : w.tasks.lookup op = some t) :
    Sound grace (({ w with tasks := w.tasks.erase op } : World).settle op ⟨none, false⟩) := by
  obtain ⟨rfl, hi, -, hother, hr⟩ := h.tasked ht
  have hset : ∀ channel : Channel, w.channels.set 0 channel = [channel] := fun channel => by rw [hi.channels]; rfl
  exact h.answer ht h.aligned (fun hx => hx) (hset _) (.lost (idle_erase hother) hr)

/-- Removal owners outside of the workflow come and go. -/
theorem Sound.joins (h : Sound grace w) {pending : PendingJoins} (hp : Aligned pending) :
    Sound grace { w with shared := { w.shared with pending } } := by
  refine ⟨hp, h.calm, h.closed, h.vacant, h.keys, h.abandoning, h.placed, ?_⟩
  cases h.place with
  | fresh hf =>
      exact .fresh ⟨hf.channels, hf.triggers, hf.operation, hf.installs, hf.installed, hf.started, hf.tasks,
        hf.verdicts, hf.reports, hf.begins⟩
  | beginning key trigger stage hb =>
      exact .beginning key trigger stage ⟨hb.caller, hb.only, hb.channels, hb.triggers, hb.operation, hb.installs,
        hb.installed, hb.started, hb.closed, hb.tasks, hb.verdicts, hb.reports⟩
  | installed trigger channel hi =>
      exact .installed trigger channel ⟨hi.channels, hi.triggers, hi.operation, hi.installs, hi.installed, hi.started,
        hi.closed, hi.begins, hi.answered.congr rfl rfl, hi.verdicts⟩

/-- An operation found by the last owner's drop is installed. -/
theorem Sound.installed (h : Sound grace w) (hl : w.lease = 0) (hop : w.operation ≠ none) :
    ∃ trigger channel, Installed grace w trigger channel := by
  cases h.place with
  | fresh hf => exact absurd hf.operation hop
  | beginning key trigger stage hb =>
      obtain ⟨c, runtime, hc, -⟩ := hb.caller
      exact absurd hl (h.leased hc)
  | installed trigger channel hi => exact ⟨trigger, channel, hi⟩

theorem Sound.flag (h : Sound grace w) (hl : w.lease = 0) : w.installed = w.operation.isSome := by
  cases hop : w.operation with
  | none =>
      cases h.place with
      | fresh hf => exact hf.installed
      | beginning key trigger stage hb =>
          obtain ⟨c, runtime, hc, -⟩ := hb.caller
          exact absurd hl (h.leased hc)
      | installed trigger channel hi => rw [hi.operation] at hop; cases hop
  | some op =>
      obtain ⟨trigger, channel, hi⟩ := h.installed hl (by rw [hop]; exact nofun)
      exact hi.installed

/-- The public owners change, or the last one's drop gets on. -/
theorem Sound.tenure (h : Sound grace w) {lease : Nat} {abandoning : Option (List AbandonInstr)} {started : Bool}
    {shared : Shared} (haligned : Aligned shared.pending)
    (hclosed : w.shared.shuttingDown = true → shared.shuttingDown = true)
    (hstarted : started = w.started ∨ started = true ∧ w.operation = none ∧ lease = 0)
    (hshut : started = true → shared.shuttingDown = true) (hvacant : lease = 0 → ∀ k, w.callers.lookup k = none)
    (hlease : w.lease = 0 → lease = 0)
    (habandoning : ∀ script, abandoning = some script →
      lease = 0 ∧ Abandoning { w with lease, abandoning, started, shared } script) :
    Sound grace { w with lease, abandoning, started, shared } := by
  have hmono : w.started = true → started = true := fun hs => hstarted.elim (fun he => he ▸ hs) fun hn => hn.1
  refine ⟨haligned, h.calm, hshut, hvacant, h.keys, habandoning, fun k c hc => ?_, ?_⟩
  · exact (h.placed k c hc).mono (fun hl => hl) hmono fun _ ho => ho
  · cases h.place with
    | fresh hf =>
        refine .fresh ⟨hf.channels, hf.triggers, hf.operation, hf.installs, hf.installed, fun hs => ?_, hf.tasks,
          hf.verdicts, hf.reports, hf.begins⟩
        rcases hstarted with he | hn
        · exact hlease (hf.started (he ▸ hs))
        · exact hn.2.2
    | beginning key trigger stage hb =>
        have he : started = w.started := hstarted.resolve_right fun hn => by
          obtain ⟨c, runtime, hc, -⟩ := hb.caller
          rw [hvacant hn.2.2 key] at hc
          cases hc
        exact .beginning key trigger stage ⟨hb.caller, hb.only, hb.channels, hb.triggers, hb.operation, hb.installs,
          hb.installed, he.trans hb.started, fun hr => hclosed (hb.closed hr), hb.tasks, hb.verdicts, hb.reports⟩
    | installed trigger channel hi =>
        exact .installed trigger channel ⟨hi.channels, hi.triggers, hi.operation, hi.installs, hi.installed,
          hmono hi.started, hclosed hi.closed, hi.begins, hi.answered.congr rfl rfl, hi.verdicts⟩

theorem Sound.abandonStep (h : Sound grace w) {instr : AbandonInstr} {rest : List AbandonInstr}
    (ha : w.abandoning = some (instr :: rest)) : Sound grace (w.abandonStep rest instr) := by
  obtain ⟨hl, hscript⟩ := h.abandoning _ ha
  have hvacant := h.vacant hl
  rcases hscript with hn | hload | ⟨hop, hmark | ⟨hshut, hstart | hcancel⟩⟩
  · cases hn
  · cases hload
    refine h.tenure h.aligned (fun hx => hx) (.inl rfl) h.closed (fun _ => hvacant) (fun hx => hx) fun script hs => ?_
    refine ⟨hl, ?_⟩
    rw [h.flag hl] at hs
    cases hop : w.operation with
    | none =>
        rw [hop] at hs
        cases hs
        exact .inr (.inr ⟨rfl, .inl rfl⟩)
    | some op =>
        rw [hop] at hs
        cases hs
        exact .inl rfl
  · cases hmark
    refine h.tenure h.aligned (fun _ => rfl) (.inl rfl) (fun _ => rfl) (fun _ => hvacant) (fun hx => hx) fun script hs => ?_
    cases hs
    exact ⟨hl, .inr (.inr ⟨hop, .inr ⟨rfl, .inl rfl⟩⟩)⟩
  · cases hstart
    refine h.tenure h.aligned (fun hx => hx) (.inr ⟨rfl, hop, hl⟩) (fun _ => hshut) (fun _ => hvacant) (fun hx => hx)
      fun script hs => ?_
    cases hs
    exact ⟨hl, .inr (.inr ⟨hop, .inr ⟨hshut, .inr rfl⟩⟩)⟩
  · cases hcancel
    refine h.tenure h.aligned (fun hx => hx) (.inl rfl) h.closed (fun _ => hvacant) (fun hx => hx) fun script hs => ?_
    cases hs
    exact ⟨hl, .inl rfl⟩

theorem Sound.enter (h : Sound grace w) {c : Caller} (hc : Verdict.plain c.pc = true) (hs : w.enter c = some w') :
    Sound grace w' := by
  simp only [World.enter] at hs
  split at hs
  · cases hs
  · next hlease =>
    cases hs
    refine h.recall hlease (fun c₁ h₁ => ?_) (fun k => Table.lookup_insert_ite _ _ k _) (Nat.le_succ _)
      (Nat.lt_succ_self _) (.inl rfl) fun c₁ h₁ => ?_
    · exact absurd (h.keys _ c₁ h₁) (Nat.lt_irrefl _)
    · cases h₁
      exact ⟨begins_of_plain hc, placed_of_plain hc⟩

theorem Sound.step (h : Sound grace w) {a : Action} (hs : w.step grace a = some w') : Sound grace w' := by
  cases a with
  | share =>
      simp only [World.step] at hs
      split at hs
      · cases hs
      · next hl =>
        cases hs
        exact h.tenure h.aligned (fun hx => hx) (.inl rfl) h.closed (fun hx => (nomatch hx)) (fun hx => absurd hx hl)
          fun script ha => absurd (h.abandoning script ha).1 hl
  | release =>
      simp only [World.step] at hs
      split at hs
      · cases hs
      · next hl =>
        split at hs
        · split at hs
          · next hempty =>
            cases hs
            have hvacant : ∀ k, w.callers.lookup k = none := by
              refine Table.entries_eq_nil.mp ?_
              simpa [AList.keys, List.keys] using hempty
            refine h.tenure h.aligned (fun hx => hx) (.inl rfl) h.closed (fun _ => hvacant) (fun _ => rfl)
              fun script ha => ?_
            cases ha
            exact ⟨rfl, .inr (.inl rfl)⟩
          · cases hs
        · next hl₁ =>
          cases hs
          have hne : w.lease - 1 ≠ 0 := by omega
          exact h.tenure h.aligned (fun hx => hx) (.inl rfl) h.closed (fun hx => absurd hx hne) (fun hx => absurd hx hl)
            fun script ha => absurd (h.abandoning script ha).1 hl
  | abandonStep =>
      simp only [World.step] at hs
      split at hs
      · next instr rest ha =>
        cases hs
        exact h.abandonStep ha
      · cases hs
  | shutdown => exact h.enter rfl hs
  | runStatic kind empty => exact h.enter rfl hs
  | call key choice =>
      obtain ⟨c, hk, hc⟩ := Option.bind_eq_some_iff.mp hs
      exact h.call hk hc
  | cancel key =>
      obtain ⟨c, hk, hc⟩ := Option.bind_eq_some_iff.mp hs
      split at hc
      · next hsuspended =>
        cases hc
        refine h.leave hk ?_
        cases hpc : c.pc <;> first | rfl | (rw [hpc] at hsuspended; cases hsuspended)
      · cases hc
  | owner op answer =>
      obtain ⟨t, ht, hmap⟩ := Option.bind_eq_some_iff.mp hs
      obtain ⟨⟨shared, t'⟩, hstep, hw⟩ := Option.map_eq_some_iff.mp hmap
      cases hw
      exact h.owner ht hstep
  | publish op =>
      obtain ⟨t, ht, hp⟩ := Option.bind_eq_some_iff.mp hs
      split at hp
      · next outcome hstage =>
        cases hp
        exact h.publish ht hstage
      · cases hp
  | lose op =>
      obtain ⟨t, ht, hw⟩ := Option.map_eq_some_iff.mp hs
      cases hw
      exact h.lose ht
  | claim task name =>
      cases hs
      exact h.joins (h.aligned.incWithName task name)
  | finish task =>
      cases hs
      exact h.joins (h.aligned.dec task)

theorem sound_of_reachable (h : (machine grace).Reachable w) : Sound grace w :=
  h.invariant sound_new fun _ _ _ _ hs ht => hs.step ht

theorem Sound.single (h : Sound grace w) :
    w.installs.length ≤ 1 ∧ w.triggers.length ≤ 1 ∧ w.installs = w.operation.toList := by
  cases h.place with
  | fresh hf =>
      rw [hf.installs, hf.triggers, hf.operation]
      exact ⟨Nat.zero_le _, Nat.zero_le _, rfl⟩
  | beginning key trigger stage hb =>
      rw [hb.installs, hb.triggers]
      exact ⟨by cases w.operation <;> simp, Nat.le_refl _, rfl⟩
  | installed trigger channel hi =>
      rw [hi.installs, hi.triggers, hi.operation]
      exact ⟨Nat.le_refl _, Nat.le_refl _, rfl⟩

/-- The outcome of the wait is the verdict on the first trigger and the tail,
or its owner was not launched or lost. -/
theorem Answered.determined (h : Answered grace w trigger channel) {outcome : ShutdownOutcome}
    (hs : settled channel = some outcome) :
    (∃ r, w.reports = [(0, r)] ∧ outcome = verdict grace trigger r) ∨ w.reports = [] ∧ outcome = .shuttingDown := by
  cases h with
  | running => cases hs
  | published r ht hr =>
      cases hs
      exact .inl ⟨r, hr, rfl⟩
  | unlaunched ht hr =>
      cases hs
      exact .inr ⟨hr, rfl⟩
  | lost ht hr =>
      cases hs
      exact .inr ⟨hr, rfl⟩

theorem Sound.waited (h : Sound grace w) {v : Nat × ShutdownOutcome} (hv : v ∈ w.verdicts) :
    ∃ trigger channel, w.triggers = [trigger] ∧ w.channels = [channel] ∧ w.operation = some 0 ∧
      settled channel = some v.2 ∧
      ((∃ r, w.reports = [(0, r)] ∧ v.2 = verdict grace trigger r) ∨ w.reports = [] ∧ v.2 = .shuttingDown) := by
  cases h.place with
  | fresh hf => rw [hf.verdicts] at hv; cases hv
  | beginning key trigger stage hb => rw [hb.verdicts] at hv; cases hv
  | installed trigger channel hi =>
      have hs := hi.verdicts v hv
      exact ⟨trigger, channel, hi.triggers, hi.channels, hi.operation, hs, hi.answered.determined hs⟩

theorem borrow_step {op : Nat} {outcome : ShutdownOutcome} (hk : w.callers.lookup key = some c) (hpc : c.pc = .borrow op)
    (hchannel : w.channels[op]? = some channel) (hv : channel.value = some outcome) :
    w.step grace (.call key .go) = some { w.leave key c with verdicts := w.verdicts ++ [(key, outcome)] } := by
  have hvalue : (w.channels[op]?).bind Channel.value = some outcome := by rw [hchannel, Option.bind_some, hv]
  simp only [World.step, hk, Option.bind_some, World.call, hpc, hvalue]

/-- A call that is left alone comes to return an outcome. -/
def Returns (grace : Nat) (w : World) (key : Nat) (outcome : ShutdownOutcome) : Prop :=
  ∃ n w', (machine grace).after w (List.replicate n (.call key .go)) = some w' ∧ (key, outcome) ∈ w'.verdicts

theorem Returns.next {outcome : ShutdownOutcome} (hs : w.step grace (.call key .go) = some w')
    (h : Returns grace w' key outcome) : Returns grace w key outcome := by
  obtain ⟨n, w₁, hw₁, hm⟩ := h
  refine ⟨n + 1, w₁, ?_, hm⟩
  rw [List.replicate_succ, Machine.after_cons]
  change (w.step grace (.call key .go)).bind _ = _
  rw [hs]
  exact hw₁

theorem Returns.last {outcome : ShutdownOutcome} (hs : w.step grace (.call key .go) = some w')
    (hm : (key, outcome) ∈ w'.verdicts) : Returns grace w key outcome :=
  Returns.next hs ⟨0, w', rfl, hm⟩

/-- A wait on a settled operation returns. -/
theorem wait_returns {op : Nat} (hk : w.callers.lookup key = some c) (hpc : c.pc = .borrow op ∨ c.pc = .changed op)
    (hchannel : w.channels[op]? = some channel) {outcome : ShutdownOutcome} (hs : settled channel = some outcome) :
    Returns grace w key outcome := by
  have hmoved : ∀ pc, (w.move key c pc).callers.lookup key = some { c with pc } := fun pc => AList.lookup_insert _
  have hmem : ∀ verdicts : List (Nat × ShutdownOutcome), (key, outcome) ∈ verdicts ++ [(key, outcome)] :=
    fun verdicts => List.mem_append_right verdicts (List.mem_singleton.mpr rfl)
  cases hv : channel.value with
  | some outcome₁ =>
      obtain rfl : outcome₁ = outcome := by
        rw [settled, hv] at hs
        exact Option.some.inj hs
      rcases hpc with hpc | hpc
      · exact Returns.last (borrow_step hk hpc hchannel hv) (hmem _)
      · have hstep : w.step grace (.call key .go) = some (w.move key c (.borrow op)) := by
          simp only [World.step, hk, Option.bind_some, World.call, hpc, hchannel, hv, Option.isSome_some, if_true]
        exact Returns.next hstep (Returns.last (borrow_step (hmoved _) rfl hchannel hv) (hmem _))
  | none =>
      have hsender : channel.sender = false := by
        rw [settled, hv] at hs
        by_contra hne
        rw [Bool.not_eq_false] at hne
        simp [hne] at hs
      obtain rfl : outcome = .shuttingDown := by
        rw [settled, hv] at hs
        simp only [hsender, Bool.false_eq_true, if_false] at hs
        exact (Option.some.inj hs).symm
      have hvalue : (w.channels[op]?).bind Channel.value = none := by rw [hchannel, Option.bind_some, hv]
      have hchanged : ∀ (w₁ : World) c₁, w₁.callers.lookup key = some c₁ → c₁.pc = .changed op → w₁.channels = w.channels →
          Returns grace w₁ key .shuttingDown := by
        intro w₁ c₁ hk₁ hpc₁ hc₁
        have hstep : w₁.step grace (.call key .go) =
            some { w₁.leave key c₁ with verdicts := w₁.verdicts ++ [(key, .shuttingDown)] } := by
          simp only [World.step, hk₁, Option.bind_some, World.call, hpc₁, hc₁, hchannel, hv, hsender, Option.isSome_none,
            Bool.false_eq_true, if_false]
        exact Returns.last hstep (hmem _)
      rcases hpc with hpc | hpc
      · have hstep : w.step grace (.call key .go) = some (w.move key c (.changed op)) := by
          simp only [World.step, hk, Option.bind_some, World.call, hpc, hvalue]
        exact Returns.next hstep (hchanged _ _ (hmoved _) rfl rfl)
      · exact hchanged w c hk hpc rfl

/-- Until it is settled, the operation has an owner or its trigger is about to
launch one. -/
theorem Sound.owned (h : Sound grace w) {op : Nat} (hop : w.operation = some op) :
    ∃ channel, w.channels[op]? = some channel ∧ (settled channel ≠ none ∨ (∃ t, w.tasks.lookup op = some t) ∨
      ∃ key c trigger runtime stage, w.callers.lookup key = some c ∧ c.pc = .begin trigger op runtime stage) := by
  cases h.place with
  | fresh hf => rw [hf.operation] at hop; cases hop
  | beginning key trigger stage hb =>
      obtain ⟨c, runtime, hc, hpc⟩ := hb.caller
      have hop₀ : op = 0 := by
        rw [hb.operation] at hop
        split at hop
        · cases hop
        · exact (Option.some.inj hop).symm
      subst hop₀
      exact ⟨_, by rw [hb.channels]; rfl, .inr (.inr ⟨key, c, trigger, runtime, stage, hc, hpc⟩)⟩
  | installed trigger channel hi =>
      rw [hi.operation] at hop
      cases hop
      refine ⟨channel, by rw [hi.channels]; rfl, ?_⟩
      cases hi.answered with
      | running t ht => exact .inr (.inl ⟨t, ht⟩)
      | published => exact .inl nofun
      | unlaunched => exact .inl nofun
      | lost => exact .inl nofun

theorem Sound.opened (h : Sound grace w) (hs : w.started = true) : w.shared.shuttingDown = true ∧
    (w.operation.isSome = true ∨ w.operation = none ∧ w.lease = 0 ∧ ∀ key, w.callers.lookup key = none) := by
  refine ⟨h.closed hs, ?_⟩
  cases h.place with
  | fresh hf => exact .inr ⟨hf.operation, hf.started hs, h.vacant (hf.started hs)⟩
  | beginning key trigger stage hb =>
      obtain ⟨c, runtime, hc, hpc⟩ := hb.caller
      exact .inl (by rw [h.operation hc hs]; rfl)
  | installed trigger channel hi => exact .inl (by rw [hi.operation]; rfl)

/-- Once an operation is installed, the last owner's drop does nothing. -/
theorem Sound.abandoned (h : Sound grace w) (hop : w.operation.isSome = true)
    (hs : w.step grace .abandonStep = some w') : w' = { w with abandoning := some [] } := by
  simp only [World.step] at hs
  split at hs
  · next instr rest ha =>
    obtain ⟨hl, hscript⟩ := h.abandoning _ ha
    rcases hscript with hn | hload | ⟨hnone, -⟩
    · cases hn
    · cases hload
      cases hs
      rw [World.abandonStep, h.flag hl, hop]
      rfl
    · rw [hnone] at hop
      cases hop
  · cases hs

theorem Sound.completed (h : Sound grace w) {r : Report} (hr : w.reports = [(0, r)]) (ht : w.triggers = [trigger])
    (hd : drains trigger = true) (hc : w.channels = [channel]) :
    settled channel = some .completed ↔
      r.forced = [] ∧ (∃ p, r.pending = some p ∧ p.isEmpty = true) ∧ r.fence = true ∧ r.faults = [] := by
  cases h.place with
  | fresh hf => rw [hf.reports] at hr; cases hr
  | beginning key trigger stage hb => rw [hb.reports] at hr; cases hr
  | installed trigger₁ channel₁ hi =>
      rw [hi.triggers] at ht
      cases ht
      rw [hi.channels] at hc
      cases hc
      cases hi.answered with
      | running t _ _ _ _ hn => rw [hn] at hr; cases hr
      | unlaunched _ hn => rw [hn] at hr; cases hr
      | lost _ hn => rw [hn] at hr; cases hr
      | published r₁ _ hn hs =>
          rw [hn] at hr
          cases hr
          rw [← hs.completed_iff hd]
          exact Option.some_inj

/-- A request and a late one; the drain claims one task, which stops. -/
def drainRun : List Action :=
  [.shutdown, .call 0 .go, .call 0 (.runtime true)] ++ List.replicate 7 (.call 0 .go) ++
    [.owner 0 .go, .owner 0 (.fence true), .owner 0 (.claim [(1, "a")]), .owner 0 (.join false)] ++
    List.replicate 4 (.owner 0 .go) ++ List.replicate 4 (.owner 0 (.phase .clean)) ++
    [.publish 0, .call 0 .go, .call 0 .go, .shutdown, .call 1 .go, .call 1 (.runtime false), .call 1 .go]

end Taskvisor.Shutdown.Verdict
