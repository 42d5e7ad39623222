import Mathlib.Data.List.Basic
import Mathlib.Data.Nat.Notation
import Mathlib.Tactic.Common

/-!
# The DHCP client's states and the status it publishes

`lwip_comm.c` keeps two variables about DHCP: `g_lwip_dhcp_state`, which
`lwip_dhcp_process` and the link callback move, and `g_lwipdev.dhcpstatus`, which tells the
application how far it has come.  Every call of `lwip_dhcp_process` publishes 1 first, and a
call in `ADDRESS_ASSIGNED` or in `TIMEOUT` leaves it at that.

What the lwIP core does is a parameter of each event: the answers a call gets, and the
addresses the core leaves in the interface between two calls.

## Main definitions

* `lwipDhcpProcess`, `lwipLinkStatusUpdated` — the two functions.
* `Event`, `run` — what happens to them.
* `due` — the status that `lwip_comm.h` documents for a state.
* `statusFollows_iff` — the runs in which the published status is the one that is due.
-/

namespace Apollo.Lwip

/-! ## The two variables -/

/-- `g_lwip_dhcp_state`. -/
inductive DhcpState where
  | off
  | start
  | waitAddress
  | addressAssigned
  | timeout
  | linkDown
  deriving DecidableEq

/-- `LWIP_MAX_DHCP_TRIES`. -/
abbrev lwipMaxDhcpTries : UInt8 := 4

/-- Four bytes of `__lwip_dev` that spell an address. -/
structure Quad where
  b0 : UInt8
  b1 : UInt8
  b2 : UInt8
  b3 : UInt8
  deriving DecidableEq

/-- The addresses of a `struct netif`, as lwIP keeps them: the first byte lowest. -/
structure Netif where
  ipAddr : UInt32
  netmask : UInt32
  gw : UInt32
  deriving DecidableEq

/-- `IP4_ADDR`, on the little-endian core. -/
def ip4Addr (q : Quad) : UInt32 :=
  q.b0.toUInt32 ||| q.b1.toUInt32 <<< 8 ||| q.b2.toUInt32 <<< 16 ||| q.b3.toUInt32 <<< 24

/-- The bytes of an address, as `lwip_dhcp_process` takes them apart. -/
def addrBytes (addr : UInt32) : Quad where
  b0 := addr.toUInt8
  b1 := (addr >>> 8).toUInt8
  b2 := (addr >>> 16).toUInt8
  b3 := (addr >>> 24).toUInt8

/-- The part of `__lwip_dev` that DHCP has to do with. -/
structure LwipDev where
  ip : Quad
  netmask : Quad
  gateway : Quad
  /-- 0: no address from DHCP; 1: DHCP is at work; 2: it supplied an address; `0xFF`: it
  failed. -/
  dhcpstatus : UInt8
  deriving DecidableEq

/-- `g_lwip_dhcp_state`, `g_lwip_netif` and `g_lwipdev`. -/
structure Comm where
  dhcpState : DhcpState
  netif : Netif
  dev : LwipDev
  deriving DecidableEq

/-- `lwip_comm_default_ip_set`. -/
def lwipCommDefaultIpSet : LwipDev where
  ip := ⟨192, 168, 1, 30⟩
  netmask := ⟨255, 255, 255, 0⟩
  gateway := ⟨192, 168, 1, 1⟩
  dhcpstatus := 0

/-! ## The two functions -/

/-- What lwIP answers to the calls that `lwip_dhcp_process` may make. -/
structure Responses where
  /-- The addresses after `dhcp_start`. -/
  started : Netif → Netif
  /-- `dhcp_supplied_address`. -/
  supplied : Bool
  /-- `dhcp->tries`. -/
  tries : UInt8
  /-- The addresses after `dhcp_stop`. -/
  stopped : Netif → Netif

/-- The published status set to `c`. -/
def Comm.publish (s : Comm) (c : UInt8) : Comm :=
  { s with dev := { s.dev with dhcpstatus := c } }

/-- `lwip_link_status_updated`. -/
def lwipLinkStatusUpdated (isUp : Bool) (s : Comm) : Comm :=
  { s with dhcpState := if isUp then .start else .linkDown }

/-- The state `LWIP_DHCP_WAIT_ADDRESS` of `lwip_dhcp_process`. -/
def dhcpWaitAddress (r : Responses) (s : Comm) : Comm :=
  if r.supplied then
    let s := { s with dhcpState := .addressAssigned }
    if s.netif.ipAddr ≠ 0 then
      { s with dev := {
          ip := addrBytes s.netif.ipAddr
          netmask := addrBytes s.netif.netmask
          gateway := addrBytes s.netif.gw
          dhcpstatus := 2 } }
    else s
  else if r.tries > lwipMaxDhcpTries then
    -- whatever `dhcp_stop` leaves in the interface, the static addresses replace it
    { dhcpState := .timeout
      netif := ⟨ip4Addr s.dev.ip, ip4Addr s.dev.netmask, ip4Addr s.dev.gateway⟩
      dev := { s.dev with dhcpstatus := 0xFF } }
  else s

/-- `lwip_dhcp_process`. -/
def lwipDhcpProcess (r : Responses) (s : Comm) : Comm :=
  let s := s.publish 1
  match s.dhcpState with
  | .start => { s with netif := r.started ⟨0, 0, 0⟩, dhcpState := .waitAddress }
  | .waitAddress => dhcpWaitAddress r s
  | .linkDown => { s with netif := r.stopped s.netif, dhcpState := .off }
  | .off => s
  | .addressAssigned => s
  | .timeout => s

/-- `lwip_comm_init`, up to the wait for the cable. -/
def lwipCommInit (isUp : Bool) : Comm :=
  (lwipLinkStatusUpdated isUp ⟨.off, ⟨0, 0, 0⟩, lwipCommDefaultIpSet⟩).publish 0

/-! ## Runs -/

/-- What happens to the two variables. -/
inductive Event where
  /-- The periodic call, with the answers it gets. -/
  | process (r : Responses)
  /-- The link callback, with what `netif_is_up` says. -/
  | link (isUp : Bool)
  /-- The core leaves these addresses in the interface. -/
  | core (netif : Netif)

/-- One event. -/
def Event.step (s : Comm) : Event → Comm
  | process r => lwipDhcpProcess r s
  | link isUp => lwipLinkStatusUpdated isUp s
  | core netif => { s with netif := netif }

/-- The state after some events. -/
def run (s : Comm) (es : List Event) : Comm := es.foldl Event.step s

@[simp] theorem run_nil (s : Comm) : run s [] = s := rfl
@[simp] theorem run_cons (s : Comm) (e : Event) (es : List Event) :
    run s (e :: es) = run (e.step s) es := rfl
@[simp] theorem run_append (s : Comm) (es es' : List Event) :
    run s (es ++ es') = run (run s es) es' := List.foldl_append ..

/-- The status that is due in a state of which the application should know the outcome: an
address has been assigned and is not zero, or DHCP has timed out. -/
def due (s : Comm) : Option UInt8 :=
  match s.dhcpState with
  | .addressAssigned => if s.netif.ipAddr ≠ 0 then some 2 else none
  | .timeout => some 0xFF
  | _ => none

/-- None of the events is a call of the link callback. -/
def LinkFree (es : List Event) : Prop := ∀ isUp, Event.link isUp ∉ es

/-- After each call that ends in a state with a status due, that status is the one published,
and stays so until the link changes. -/
def StatusFollows (s : Comm) (es : List Event) : Prop :=
  ∀ pre r later rest, es = pre ++ .process r :: (later ++ rest) → LinkFree later →
    ∀ c, due (run s (pre ++ [.process r])) = some c →
      (run s (pre ++ .process r :: later)).dev.dhcpstatus = c

/-- No call begins in a state with a status due, or comes after a call that ended in one
before the link has changed. -/
def RestsOnceDue (s : Comm) (es : List Event) : Prop :=
  ∀ pre r rest, es = pre ++ .process r :: rest → due (run s pre) = none ∧
    ∀ pre' r' later, pre = pre' ++ .process r' :: later → LinkFree later →
      due (run s (pre' ++ [.process r'])) = none

/-! ## One call -/

section Step
variable {s : Comm} {r : Responses} {c : UInt8}

/-- `ADDRESS_ASSIGNED` and `TIMEOUT`, in which a call does nothing. -/
def Settled (st : DhcpState) : Prop := st = .addressAssigned ∨ st = .timeout

theorem settled_of_due (h : due s = some c) : Settled s.dhcpState ∧ c ≠ 1 := by
  rw [due] at h
  cases hst : s.dhcpState <;> rw [hst] at h
  case addressAssigned =>
    refine ⟨Or.inl rfl, ?_⟩
    rintro rfl
    simp at h
  case timeout =>
    refine ⟨Or.inr rfl, ?_⟩
    rintro rfl
    simp at h
  all_goals cases h

/-- A call in such a state publishes 1, and does nothing else. -/
theorem process_settled (h : Settled s.dhcpState) : lwipDhcpProcess r s = s.publish 1 := by
  rcases h with h | h
  · simp only [lwipDhcpProcess, Comm.publish, h]
  · simp only [lwipDhcpProcess, Comm.publish, h]

/-- A call that comes to a state with a status due publishes that status. -/
theorem process_reports (hnone : due s = none) (hdue : due (lwipDhcpProcess r s) = some c) :
    (lwipDhcpProcess r s).dev.dhcpstatus = c := by
  cases hst : s.dhcpState
  case waitAddress =>
    simp only [lwipDhcpProcess, Comm.publish, hst, dhcpWaitAddress] at hdue ⊢
    by_cases hsup : r.supplied = true
    · by_cases hip : s.netif.ipAddr = 0
      · simp [hsup, hip, due] at hdue
      · simpa [hsup, hip, due] using hdue
    · by_cases htries : r.tries > lwipMaxDhcpTries
      · simpa [hsup, htries, due] using hdue
      · simp [hsup, htries, due] at hdue
  case addressAssigned =>
    rw [process_settled (Or.inl hst)] at hdue
    exact absurd (hdue.symm.trans hnone) (Option.some_ne_none c)
  case timeout => simp [due, hst] at hnone
  all_goals simp [lwipDhcpProcess, Comm.publish, hst, due] at hdue

end Step

/-! ## Between two calls of the link callback -/

section LinkFree
variable {s : Comm} {es es' : List Event} {c : UInt8}

theorem LinkFree.append (h : LinkFree es) (h' : LinkFree es') : LinkFree (es ++ es') := by
  intro isUp hmem
  rcases List.mem_append.mp hmem with hleft | hright
  · exact h isUp hleft
  · exact h' isUp hright

theorem linkFree_process (r : Responses) : LinkFree [.process r] := by
  intro isUp hmem
  cases List.mem_singleton.mp hmem

/-- As long as the link does not change, such a state stays. -/
theorem settled_run (hfree : LinkFree es) (h : Settled s.dhcpState) :
    Settled (run s es).dhcpState := by
  induction es generalizing s with
  | nil => exact h
  | cons e es ih =>
      have hstep : Settled (e.step s).dhcpState := by
        cases e with
        | process r =>
            rw [Event.step, process_settled h]
            exact h
        | link isUp => exact absurd (List.mem_cons_self) (hfree isUp)
        | core netif => exact h
      exact ih (fun isUp hmem => hfree isUp (List.mem_cons_of_mem e hmem)) hstep

/-- Without a call nothing is published. -/
theorem status_run (hquiet : ∀ e ∈ es, ∃ netif, e = .core netif) :
    (run s es).dev.dhcpstatus = s.dev.dhcpstatus := by
  induction es generalizing s with
  | nil => rfl
  | cons e es ih =>
      obtain ⟨netif, rfl⟩ := hquiet e List.mem_cons_self
      exact ih fun e' hmem => hquiet e' (List.mem_cons_of_mem _ hmem)

end LinkFree

/-! ## All runs -/

/-- The published status follows the state exactly in the runs that make no call any more once
a status is due, until the link changes. -/
theorem statusFollows_iff (s : Comm) (es : List Event) :
    StatusFollows s es ↔ RestsOnceDue s es := by
  constructor
  · intro h pre r rest hes
    -- a call in a settled state publishes 1, which is never due
    have hone : ∀ t : Comm, Settled t.dhcpState →
        (run t [.process r]).dev.dhcpstatus = 1 := by
      intro t ht
      rw [run_cons, run_nil, Event.step, process_settled ht]
      rfl
    refine ⟨?_, fun pre' r' later hpre hfree => ?_⟩
    · by_contra hne
      obtain ⟨c, hc⟩ := Option.ne_none_iff_exists'.mp hne
      obtain ⟨hset, hc1⟩ := settled_of_due hc
      have hlast : due (run s (pre ++ [.process r])) = some c := by
        rw [run_append, run_cons, run_nil, Event.step, process_settled hset]
        exact hc
      have hstatus := h pre r [] rest hes (fun _ hmem => by cases hmem) c hlast
      rw [run_append, hone _ hset] at hstatus
      exact hc1 hstatus.symm
    · by_contra hne
      obtain ⟨c, hc⟩ := Option.ne_none_iff_exists'.mp hne
      obtain ⟨hset, hc1⟩ := settled_of_due hc
      have hstatus := h pre' r' (later ++ [.process r]) rest (by rw [hes, hpre]; simp)
        (hfree.append (linkFree_process r)) c hc
      have hsplit : pre' ++ Event.process r' :: (later ++ [.process r]) =
          (pre' ++ [.process r']) ++ later ++ [.process r] := by simp
      rw [hsplit, run_append, run_append, hone _ (settled_run hfree hset)] at hstatus
      exact hc1 hstatus.symm
  · intro h pre r later rest hes hfree c hc
    have hstart := (h pre r (later ++ rest) hes).1
    have hquiet : ∀ e ∈ later, ∃ netif, e = .core netif := by
      intro e hmem
      cases e with
      | process r' =>
          obtain ⟨l₁, l₂, rfl⟩ := List.append_of_mem hmem
          have hnone := (h (pre ++ .process r :: l₁) r' (l₂ ++ rest) (by rw [hes]; simp)).2 pre r l₁
            rfl fun isUp hin => hfree isUp (List.mem_append_left _ hin)
          exact absurd (hc.symm.trans hnone) (Option.some_ne_none c)
      | link isUp => exact absurd hmem (hfree isUp)
      | core netif => exact ⟨netif, rfl⟩
    have hsplit : pre ++ Event.process r :: later = (pre ++ [.process r]) ++ later := by simp
    rw [hsplit, run_append, status_run hquiet]
    rw [run_append] at hc ⊢
    exact process_reports hstart hc

/-- A server that supplies 192.168.1.50 at once. -/
def supplies : Responses where
  started := id
  supplied := true
  tries := 0
  stopped := id

/-- The cable is plugged in, an address is requested and supplied: the call that finds it
publishes 2, the next one publishes 1 for good. -/
theorem status_forgets_assigned :
    let es := [.process supplies, .core ⟨ip4Addr ⟨192, 168, 1, 50⟩, 0, 0⟩, .process supplies,
      .process supplies]
    (run (lwipCommInit true) es).dhcpState = .addressAssigned ∧
      (run (lwipCommInit true) es).netif.ipAddr ≠ 0 ∧
      (run (lwipCommInit true) es).dev.dhcpstatus = 1 ∧
      ¬ StatusFollows (lwipCommInit true) es := by
  refine ⟨rfl, by decide, rfl, fun h => ?_⟩
  have hstatus := h [.process supplies, .core ⟨ip4Addr ⟨192, 168, 1, 50⟩, 0, 0⟩, .process supplies]
    supplies [] [] rfl (fun _ hmem => by cases hmem) 2 (by decide)
  exact absurd hstatus (by decide)

end Apollo.Lwip
