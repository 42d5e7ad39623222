import Apollo.Remote.Receiver

/-!
# Which keys are reported

The history of a run is the data bits captured since the last leader was accepted.  The
register keeps the bits of earlier frames too, and the first overflow after a leader
publishes it however many bits have come.  A frame that starts while the receiver still
counts the overflows of the one before is not recognised as new, so it is published only
if the old publication has survived.

## Main definitions

* `heard`, `Reachable Ok` — histories, and the runs whose events are `Ok`.
* `Whole` — the condition on an event: nothing is published before 32 bits have come.
* `scan_sound` — in a run of such events every key reported has been sent.
* `Sees` — every poll among some events finds a key in the register.
* `key_received_iff` — when the key of a frame is reported.
-/

namespace Apollo.Remote

/-! ## Histories -/

/-- The data bits since the last accepted leader, after one more event. -/
def heard (s : State) (bits : List Bool) : Event → List Bool
  | .fall dval =>
      if risen s.sta then
        if leader s.sta then bits ++ (bitOf dval).toList
        else if IsLeader dval then [] else bits
      else bits
  | _ => bits

/-- The states of a run from reset, with the data bits since the last accepted leader. -/
inductive Reachable (Ok : State → List Bool → Event → Prop) : State → List Bool → Prop
  | reset : Reachable Ok ⟨0, 0, 0⟩ []
  | step {s : State} {bits : List Bool} (e : Event) (h : Reachable Ok s bits) (hok : Ok s bits e) :
      Reachable Ok (step s e) (heard s bits e)

/-- Any event may come. -/
abbrev Any (_ : State) (_ : List Bool) (_ : Event) : Prop := True

/-- The history after some events. -/
def heardAll (s : State) (bits : List Bool) : List Event → List Bool
  | [] => bits
  | e :: evs => heardAll (step s e) (heard s bits e) evs

/-- Every event is `Ok` when it comes. -/
def AllOk (Ok : State → List Bool → Event → Prop) (s : State) (bits : List Bool) :
    List Event → Prop
  | [] => True
  | e :: evs => Ok s bits e ∧ AllOk Ok (step s e) (heard s bits e) evs

instance decidableAllOk (Ok : State → List Bool → Event → Prop)
    [∀ s bits e, Decidable (Ok s bits e)] (s : State) (bits : List Bool) :
    (evs : List Event) → Decidable (AllOk Ok s bits evs)
  | [] => inferInstanceAs (Decidable True)
  | e :: evs =>
      have := decidableAllOk Ok (step s e) (heard s bits e) evs
      inferInstanceAs (Decidable (_ ∧ _))

theorem Reachable.run {Ok : State → List Bool → Event → Prop} {s : State} {bits : List Bool}
    (h : Reachable Ok s bits) (evs : List Event) (hok : AllOk Ok s bits evs) :
    Reachable Ok (run s evs) (heardAll s bits evs) := by
  induction evs generalizing s bits with
  | nil => exact h
  | cons e evs ih => exact ih (h.step e hok.1) hok.2

/-! ## The status byte -/

theorem sta_elapsed : ∀ sta : BitVec 8, leader sta = true →
    published (elapsedSta sta) = (published sta || decide (count sta = 0)) := by decide +kernel

theorem sta_elapsed_idle : ∀ sta : BitVec 8, leader sta = true →
    leader (elapsedSta sta) = false → count (elapsedSta sta) = 0 := by decide +kernel

theorem sta_rise (sta : BitVec 8) : risen (sta ||| 0x10) = true ∧
    leader (sta ||| 0x10) = leader sta ∧ published (sta ||| 0x10) = published sta ∧
    count (sta ||| 0x10) = count sta := by
  simp [risen, leader, published, count, BitVec.and_or_distrib_right]

theorem sta_fall (sta : BitVec 8) : leader (sta &&& ~~~0x10) = leader sta ∧
    published (sta &&& ~~~0x10) = published sta ∧ count (sta &&& ~~~0x10) = count sta := by
  simp [leader, published, count, BitVec.and_assoc]

theorem sta_leader (sta : BitVec 8) : leader (sta ||| 0x80) = true ∧
    published (sta ||| 0x80) = published sta ∧ count (sta ||| 0x80) = count sta := by
  simp [leader, published, count, BitVec.and_or_distrib_right]

theorem sta_repeat (sta : BitVec 8) : leader (sta &&& 0xF0) = leader sta ∧
    published (sta &&& 0xF0) = published sta := by
  simp [leader, published, BitVec.and_assoc]

theorem sta_withdraw (sta : BitVec 8) : leader (sta &&& ~~~0x40) = leader sta ∧
    published (sta &&& ~~~0x40) = false ∧ count (sta &&& ~~~0x40) = count sta ∧
    risen (sta &&& ~~~0x40) = risen sta := by
  simp [risen, leader, published, count, BitVec.and_assoc]

/-! ## What one event does -/

section Step
variable (s : State)

theorem fall_not_risen {dval : ℕ} (h : risen s.sta = false) :
    captureFall dval s = { s with sta := s.sta &&& ~~~0x10 } := by
  simp only [captureFall, h, Bool.false_eq_true, if_false]

theorem fall_bit {dval : ℕ} {b : Bool} (hr : risen s.sta = true) (hl : leader s.sta = true)
    (hb : bitOf dval = some b) : captureFall dval s =
      { s with data := shiftIn s.data b, sta := s.sta &&& ~~~0x10 } := by
  simp only [captureFall, hr, hl, if_true, hb]

theorem fall_repeat {dval : ℕ} (hr : risen s.sta = true) (hl : leader s.sta = true)
    (hb : bitOf dval = none) (hrep : 2000 < dval ∧ dval < 3000) : captureFall dval s =
      { s with cnt := s.cnt + 1, sta := s.sta &&& 0xF0 &&& ~~~0x10 } := by
  simp only [captureFall, hr, hl, if_true, hb, hrep, and_self]

theorem fall_ignored {dval : ℕ} (hr : risen s.sta = true) (hl : leader s.sta = true)
    (hb : bitOf dval = none) (hrep : ¬(2000 < dval ∧ dval < 3000)) : captureFall dval s =
      { s with sta := s.sta &&& ~~~0x10 } := by
  simp only [captureFall, hr, hl, if_true, hb, hrep, if_false]

theorem fall_leader {dval : ℕ} (hr : risen s.sta = true) (hl : leader s.sta = false)
    (hd : IsLeader dval) : captureFall dval s =
      { s with sta := (s.sta ||| 0x80) &&& ~~~0x10, cnt := 0 } := by
  simp only [captureFall, hr, hl, if_true, Bool.false_eq_true, if_false, hd]

theorem fall_no_leader {dval : ℕ} (hr : risen s.sta = true) (hl : leader s.sta = false)
    (hd : ¬IsLeader dval) : captureFall dval s = { s with sta := s.sta &&& ~~~0x10 } := by
  simp only [captureFall, hr, hl, if_true, Bool.false_eq_true, if_false, hd]

/-- A leader pulse is no data bit and no repeat pulse. -/
theorem IsLeader.not_data {dval : ℕ} (h : IsLeader dval) :
    bitOf dval = none ∧ ¬(2000 < dval ∧ dval < 3000) := by
  obtain ⟨h₁, h₂⟩ := h
  refine ⟨?_, by omega⟩
  rw [bitOf, if_neg (by omega), if_neg (by omega)]

theorem bitOf_some {dval : ℕ} {b : Bool} (h : bitOf dval = some b) :
    ¬(2000 < dval ∧ dval < 3000) := by
  rw [bitOf] at h
  split_ifs at h <;> omega

/-- A falling edge opens a frame, or it adds what it stands for to the frame that is held. -/
theorem fall_cases (bits : List Bool) (dval : ℕ) :
    published (captureFall dval s).sta = published s.sta ∧
      ((risen s.sta = true ∧ leader s.sta = false ∧ IsLeader dval ∧
          leader (captureFall dval s).sta = true ∧ heard s bits (.fall dval) = []) ∨
        (leader (captureFall dval s).sta = leader s.sta ∧
          ∃ taken : List Bool, (captureFall dval s).data = taken.foldl shiftIn s.data ∧
            heard s bits (.fall dval) = bits ++ taken)) ∧
      (leader s.sta = false → count (captureFall dval s).sta = count s.sta) := by
  obtain ⟨hlead, hpub, hcount⟩ := sta_fall s.sta
  by_cases hr : risen s.sta = true
  · by_cases hl : leader s.sta = true
    · have hheard : heard s bits (.fall dval) = bits ++ (bitOf dval).toList := by
        simp only [heard, hr, hl, if_true]
      rw [hheard]
      cases hb : bitOf dval with
      | some b =>
          rw [fall_bit s hr hl hb]
          exact ⟨hpub, .inr ⟨hlead, [b], rfl, rfl⟩, fun _ => hcount⟩
      | none =>
          by_cases hrep : 2000 < dval ∧ dval < 3000
          · -- A repeat pulse clears the counter, but a leader is held.
            obtain ⟨hlead', hpub', -⟩ := sta_fall (s.sta &&& 0xF0)
            obtain ⟨hkeep, hsame⟩ := sta_repeat s.sta
            rw [fall_repeat s hr hl hb hrep]
            exact ⟨hpub'.trans hsame, .inr ⟨hlead'.trans hkeep, [], rfl, rfl⟩, by simp [hl]⟩
          · rw [fall_ignored s hr hl hb hrep]
            exact ⟨hpub, .inr ⟨hlead, [], rfl, rfl⟩, fun _ => hcount⟩
    · have hl' : leader s.sta = false := by simpa using hl
      by_cases hd : IsLeader dval
      · obtain ⟨hlead', hpub', hcount'⟩ := sta_fall (s.sta ||| 0x80)
        obtain ⟨hheld, hsame, hstill⟩ := sta_leader s.sta
        rw [fall_leader s hr hl' hd]
        have hheard : heard s bits (.fall dval) = [] := by simp [heard, hr, hl', hd]
        exact ⟨hpub'.trans hsame, .inl ⟨hr, hl', hd, hlead'.trans hheld, hheard⟩,
          fun _ => hcount'.trans hstill⟩
      · rw [fall_no_leader s hr hl' hd]
        exact ⟨hpub, .inr ⟨hlead, [], rfl, by simp [heard, hr, hl', hd]⟩, fun _ => hcount⟩
  · have hr' : risen s.sta = false := by simpa using hr
    rw [fall_not_risen s hr']
    exact ⟨hpub, .inr ⟨hlead, [], rfl, by simp [heard, hr']⟩, fun _ => hcount⟩

/-- A poll withdraws what is published, or changes nothing. -/
theorem scan_state : (remoteScan s).2 = { s with sta := s.sta &&& ~~~0x40, cnt := 0 } ∨
    (remoteScan s).2 = s := by
  simp only [remoteScan]
  split_ifs <;> simp

theorem scan_data : (remoteScan s).2.data = s.data := by
  rcases scan_state s with h | h <;> rw [h]

theorem scan_flags : leader (remoteScan s).2.sta = leader s.sta ∧
    count (remoteScan s).2.sta = count s.sta ∧ risen (remoteScan s).2.sta = risen s.sta := by
  obtain ⟨hl, -, hc, hr⟩ := sta_withdraw s.sta
  rcases scan_state s with h | h <;> rw [h]
  · exact ⟨hl, hc, hr⟩
  · exact ⟨rfl, rfl, rfl⟩

/-- A poll publishes nothing. -/
theorem scan_published (h : published (remoteScan s).2.sta = true) : published s.sta = true := by
  rcases scan_state s with hs | hs <;> rw [hs] at h
  · rw [(sta_withdraw s.sta).2.1] at h
    cases h
  · exact h

/-- While a leader is held, a publication survives a poll that finds a key. -/
theorem scan_published_iff (hl : leader s.sta = true) :
    published (remoteScan s).2.sta = true ↔ published s.sta = true ∧ keyOf s.data ≠ 0 := by
  by_cases hp : published s.sta = true
  · by_cases hk : keyOf s.data = 0
    · have hs : (remoteScan s).2 = { s with sta := s.sta &&& ~~~0x40, cnt := 0 } := by
        simp only [remoteScan, hp, if_true, hk, true_or]
      rw [hs, (sta_withdraw s.sta).2.1]
      simp [hk]
    · have hs : (remoteScan s).2 = s := by
        simp only [remoteScan, hp, if_true, hk, hl, Bool.true_eq_false, or_self, if_false]
      rw [hs]
      exact ⟨fun h => ⟨h, hk⟩, fun h => h.1⟩
  · have hs : (remoteScan s).2 = s := by
      rw [remoteScan, if_neg hp]
    rw [hs]
    exact ⟨fun h => absurd h hp, fun h => h.1⟩

end Step

/-! ## Soundness -/

/-- The register holds the history. -/
theorem Register.step {s : State} {bits : List Bool} (h : Register s.data bits) (e : Event) :
    Register (step s e).data (heard s bits e) := by
  cases e with
  | rise => exact h
  | overflow => exact h
  | scan =>
      change Register (remoteScan s).2.data bits
      rw [scan_data]
      exact h
  | fall dval =>
      change Register (captureFall dval s).data _
      obtain ⟨-, hopen | ⟨-, taken, hdata, hheard⟩, -⟩ := fall_cases s bits dval
      · obtain ⟨-, -, -, -, hheard⟩ := hopen
        rw [hheard]
        exact register_nil _
      · rw [hdata, hheard]
        exact h.foldl taken

theorem Reachable.register {Ok : State → List Bool → Event → Prop} {s : State} {bits : List Bool}
    (h : Reachable Ok s bits) : Register s.data bits := by
  induction h with
  | reset => exact register_nil _
  | step e _ _ ih => exact ih.step e

/-- A poll of published data that hold 32 bits of the last frame reports only what was sent. -/
theorem scan_spells {s : State} {bits : List Bool} (h : Register s.data bits)
    (hlen : published s.sta = true → 32 ≤ bits.length) (hkey : (remoteScan s).1 ≠ 0) :
    spell (remoteScan s).1 <:+ bits := by
  by_cases hp : published s.sta = true
  · have hval : (remoteScan s).1 = keyOf s.data := by simp only [remoteScan, hp, if_true]
    rw [hval] at hkey ⊢
    exact (h.eq_frame_iff (hlen hp) _).mp ((keyOf_eq_iff hkey).mp rfl)
  · exact absurd (by rw [remoteScan, if_neg hp]) hkey

/-- An event that publishes comes after 32 data bits, and a leader is accepted only when
nothing is published any more. -/
def Whole (s : State) (bits : List Bool) : Event → Prop
  | .overflow => leader s.sta = true → count s.sta = 0 → 32 ≤ bits.length
  | .fall dval =>
      risen s.sta = true → leader s.sta = false → IsLeader dval → published s.sta = false
  | _ => True

instance (s : State) (bits : List Bool) (e : Event) : Decidable (Whole s bits e) := by
  cases e <;> unfold Whole <;> infer_instance

theorem Reachable.published {s : State} {bits : List Bool} (h : Reachable Whole s bits) :
    published s.sta = true → 32 ≤ bits.length := by
  induction h with
  | reset =>
      intro hp
      cases hp
  | @step s bits e hreach hok ih =>
      intro hp
      cases e with
      | rise => exact ih ((sta_rise s.sta).2.2.1 ▸ hp)
      | scan => exact ih (scan_published s hp)
      | overflow =>
          by_cases hl : leader s.sta = true
          · change Remote.published (elapsedSta s.sta) = true at hp
            rw [sta_elapsed s.sta hl, Bool.or_eq_true, decide_eq_true_eq] at hp
            exact hp.elim ih (hok hl)
          · refine ih ?_
            change Remote.published (elapsedSta s.sta) = true at hp
            rwa [elapsedSta, if_neg hl] at hp
      | fall dval =>
          obtain ⟨hpub, hopen | ⟨-, taken, -, hheard⟩, -⟩ := fall_cases s bits dval
          · -- A leader is accepted: nothing may be published.
            obtain ⟨hr, hl, hd, -, -⟩ := hopen
            have hnone : Remote.published s.sta = true := hpub.symm.trans hp
            rw [hok hr hl hd] at hnone
            cases hnone
          · rw [hheard, List.length_append]
            exact Nat.le_add_right_of_le (ih (hpub.symm.trans hp))

/-- In a run in which nothing is published before 32 data bits have come, and a leader is
accepted only when nothing is published, every key that a poll reports is what the last 32
data bits since the last accepted leader spell. -/
theorem scan_sound {s : State} {bits : List Bool} (h : Reachable Whole s bits)
    (hkey : (remoteScan s).1 ≠ 0) : spell (remoteScan s).1 <:+ bits :=
  scan_spells h.register h.published hkey

/-- The pulses that send a key. -/
def send (key : BitVec 8) : List Event :=
  .rise :: .fall 4500 :: (spell key).flatMap fun b => [.rise, .fall (if b then 1680 else 560)]

theorem scan_sound_sent :
    (remoteScan (run ⟨0, 0, 0⟩ (send 69 ++ [.overflow]))).1 = 69 ∧
      spell 69 <:+ heardAll ⟨0, 0, 0⟩ [] (send 69 ++ [.overflow]) := by
  have hkey : (remoteScan (run ⟨0, 0, 0⟩ (send 69 ++ [.overflow]))).1 = 69 := by decide +kernel
  have hreach : Reachable Whole _ _ :=
    Reachable.reset.run (send 69 ++ [.overflow]) (by decide +kernel)
  have hsound := scan_sound hreach (by rw [hkey]; decide)
  rw [hkey] at hsound
  exact ⟨hkey, hsound⟩

/-- A leader alone, after a key has been sent and fifteen overflows have closed its frame:
the poll reports the old key once more. -/
theorem scan_stale : ∃ s, Reachable Any s [] ∧ (remoteScan s).1 = 69 ∧
    ¬ spell (remoteScan s).1 <:+ [] := by
  set evs := send 69 ++ List.replicate 15 .overflow ++ [.rise, .fall 4500, .overflow] with hevs
  have hreach : Reachable Any (run ⟨0, 0, 0⟩ evs) (heardAll ⟨0, 0, 0⟩ [] evs) :=
    Reachable.reset.run evs (by rw [hevs]; decide +kernel)
  have hbits : heardAll ⟨0, 0, 0⟩ [] evs = [] := by rw [hevs]; decide +kernel
  have hkey : (remoteScan (run ⟨0, 0, 0⟩ evs)).1 = 69 := by rw [hevs]; decide +kernel
  rw [hbits] at hreach
  refine ⟨_, hreach, hkey, ?_⟩
  rw [hkey]
  decide

/-! ## Completeness -/

/-- High pulses of the given widths. -/
def pulses (ws : List ℕ) : List Event := ws.flatMap fun w => [.rise, .fall w]

/-- The events are pulses of the given widths with polls among them; the flag says that a
rising edge has already come. -/
inductive Pulses : Bool → List Event → List ℕ → Prop
  | nil : Pulses false [] []
  | rise {r : Bool} {evs : List Event} {ws : List ℕ} (h : Pulses true evs ws) :
      Pulses r (.rise :: evs) ws
  | fall {w : ℕ} {evs : List Event} {ws : List ℕ} (h : Pulses false evs ws) :
      Pulses true (.fall w :: evs) (w :: ws)
  | scan {r : Bool} {evs : List Event} {ws : List ℕ} (h : Pulses r evs ws) :
      Pulses r (.scan :: evs) ws

/-- What is left of some pulses when the polls are left out, before or after a rising edge. -/
def pending (r : Bool) (ws : List ℕ) : List Event := if r then (pulses ws).tail else pulses ws

theorem pulses_of_filter {evs : List Event} {r : Bool} {ws : List ℕ} (hr : r = true → ws ≠ [])
    (h : evs.filter (· ≠ .scan) = pending r ws) : Pulses r evs ws := by
  induction evs generalizing r ws with
  | nil =>
      cases r with
      | false =>
          cases ws with
          | nil => exact .nil
          | cons w ws => simp [pending, pulses] at h
      | true =>
          cases ws with
          | nil => exact absurd rfl (hr rfl)
          | cons w ws => simp [pending, pulses] at h
  | cons e evs ih =>
      cases e with
      | scan => exact .scan (ih hr (by simpa using h))
      | rise =>
          cases r with
          | false =>
              cases ws with
              | nil => simp [pending, pulses] at h
              | cons w ws =>
                  exact .rise
                    (ih (fun _ => List.cons_ne_nil _ _) (by simpa [pending, pulses] using h))
          | true =>
              cases ws with
              | nil => exact absurd rfl (hr rfl)
              | cons w ws => simp [pending, pulses] at h
      | fall dval =>
          cases ws with
          | nil => cases r <;> simp [pending, pulses] at h
          | cons w ws =>
              cases r with
              | false => simp [pending, pulses] at h
              | true =>
                  obtain ⟨rfl, hrest⟩ : dval = w ∧ evs.filter (· ≠ .scan) = pulses ws := by
                    simpa [pending, pulses] using h
                  exact .fall
                    (ih (r := false) (fun h => by cases h) (by simpa [pending] using hrest))
      | overflow =>
          cases ws with
          | nil => cases r <;> simp [pending, pulses] at h
          | cons w ws => cases r <;> simp [pending, pulses] at h

/-- Every poll among the events finds a key in the register, as the pulses before it have
left it. -/
def Sees (data : BitVec 32) : List Event → Prop
  | [] => True
  | .scan :: evs => keyOf data ≠ 0 ∧ Sees data evs
  | .fall dval :: evs => Sees ((bitOf dval).toList.foldl shiftIn data) evs
  | _ :: evs => Sees data evs

/-- While a leader is held, pulses are shifted in and the counter stands still; what is
published stays so if every poll finds a key. -/
theorem run_pulses {r : Bool} {evs : List Event} {ws : List ℕ} (h : Pulses r evs ws)
    (hws : ∀ w ∈ ws, ¬(2000 < w ∧ w < 3000)) {s : State} (hr : r = true → risen s.sta = true)
    (hl : leader s.sta = true) :
    leader (run s evs).sta = true ∧ count (run s evs).sta = count s.sta ∧
      (run s evs).data = (ws.filterMap bitOf).foldl shiftIn s.data ∧
      (published (run s evs).sta = true ↔ published s.sta = true ∧ Sees s.data evs) := by
  induction h generalizing s with
  | nil => exact ⟨hl, rfl, rfl, ⟨fun h => ⟨h, trivial⟩, fun h => h.1⟩⟩
  | rise _ ih =>
      obtain ⟨hrise, hlead, hpub, hcount⟩ := sta_rise s.sta
      have hrun := ih (s := captureRise s) hws (fun _ => hrise) (hlead.trans hl)
      rw [captureRise, hpub, hcount] at hrun
      exact hrun
  | scan _ ih =>
      obtain ⟨hlead, hcount, hrise⟩ := scan_flags s
      obtain ⟨h₁, h₂, h₃, h₄⟩ := ih (s := (remoteScan s).2) hws (fun h => hrise.trans (hr h))
        (hlead.trans hl)
      rw [scan_data] at h₃ h₄
      rw [scan_published_iff s hl, and_assoc] at h₄
      exact ⟨h₁, h₂.trans hcount, h₃, h₄⟩
  | @fall w evs ws _ ih =>
      obtain ⟨hlead, hpub, hcount⟩ := sta_fall s.sta
      have hrep := hws w (List.mem_cons_self ..)
      have hstate : captureFall w s =
          { s with data := (bitOf w).toList.foldl shiftIn s.data, sta := s.sta &&& ~~~0x10 } := by
        cases hb : bitOf w with
        | some b => exact fall_bit s (hr rfl) hl hb
        | none => exact fall_ignored s (hr rfl) hl hb hrep
      have hsta : (captureFall w s).sta = s.sta &&& ~~~0x10 := by rw [hstate]
      have hdata : (captureFall w s).data = (bitOf w).toList.foldl shiftIn s.data := by rw [hstate]
      obtain ⟨h₁, h₂, h₃, h₄⟩ := ih (s := captureFall w s)
        (fun w' hw' => hws w' (List.mem_cons_of_mem _ hw')) (fun h => by cases h)
        (by rw [hsta]; exact hlead.trans hl)
      rw [hsta] at h₂ h₄
      rw [hdata] at h₃ h₄
      rw [hpub] at h₄
      refine ⟨h₁, h₂.trans hcount, h₃.trans ?_, h₄⟩
      cases hb : bitOf w with
      | some b => rw [List.filterMap_cons_some hb]; rfl
      | none => rw [List.filterMap_cons_none hb]; rfl

/-- A leader pulse that finds no leader held opens a frame. -/
theorem run_leader {r : Bool} {evs : List Event} {w : ℕ} {ws : List ℕ}
    (h : Pulses r evs (w :: ws)) (hw : IsLeader w) {s : State} (hr : r = true → risen s.sta = true)
    (hl : leader s.sta = false) :
    ∃ t evs', run s evs = run t evs' ∧ Pulses false evs' ws ∧ leader t.sta = true ∧
      count t.sta = count s.sta ∧ t.data = s.data := by
  generalize hall : w :: ws = all at h
  induction h generalizing s with
  | nil => cases hall
  | rise _ ih =>
      obtain ⟨hrise, hlead, -, hcount⟩ := sta_rise s.sta
      obtain ⟨t, evs', hrun, hp, ht, hc, hd⟩ :=
        ih (s := captureRise s) (fun _ => hrise) (hlead.trans hl) hall
      exact ⟨t, evs', hrun, hp, ht, hc.trans hcount, hd⟩
  | scan _ ih =>
      obtain ⟨hlead, hcount, hrise⟩ := scan_flags s
      obtain ⟨t, evs', hrun, hp, ht, hc, hd⟩ :=
        ih (s := (remoteScan s).2) (fun h => hrise.trans (hr h)) (hlead.trans hl) hall
      exact ⟨t, evs', hrun, hp, ht, hc.trans hcount, hd.trans (scan_data s)⟩
  | @fall w' evs ws' hp _ =>
      obtain ⟨rfl, rfl⟩ := List.cons.inj hall
      obtain ⟨hlead, -, hcount⟩ := sta_leader s.sta
      obtain ⟨hkeep, -, hsame⟩ := sta_fall (s.sta ||| 0x80)
      have hstate := fall_leader s (hr rfl) hl hw
      refine ⟨captureFall w s, evs, rfl, hp, ?_, ?_, ?_⟩
      · rw [hstate]
        exact hkeep.trans hlead
      · rw [hstate]
        exact hsame.trans hcount
      · rw [hstate]

/-- The counter is `0` while no leader is held. -/
theorem Reachable.idle {Ok : State → List Bool → Event → Prop} {s : State} {bits : List Bool}
    (h : Reachable Ok s bits) : leader s.sta = false → count s.sta = 0 := by
  induction h with
  | reset => exact fun _ => rfl
  | @step s bits e _ _ ih =>
      intro hl
      cases e with
      | rise =>
          obtain ⟨-, hlead, -, hcount⟩ := sta_rise s.sta
          exact hcount.trans (ih (hlead ▸ hl))
      | scan =>
          obtain ⟨hlead, hcount, -⟩ := scan_flags s
          exact hcount.trans (ih (hlead ▸ hl))
      | overflow =>
          by_cases hl' : leader s.sta = true
          · exact sta_elapsed_idle s.sta hl' hl
          · have hstate : Remote.step s .overflow = s := by
              rw [Remote.step, periodElapsedCallback, elapsedSta, if_neg hl']
            rw [hstate] at hl ⊢
            exact ih hl
      | fall dval =>
          change leader (captureFall dval s).sta = false at hl
          obtain ⟨-, hopen | ⟨hlead, -⟩, hcount⟩ := fall_cases s bits dval
          · -- A pulse that opens a frame leaves a leader held.
            obtain ⟨-, -, -, hheld, -⟩ := hopen
            rw [hheld] at hl
            cases hl
          · exact (hcount (hlead ▸ hl)).trans (ih (hlead ▸ hl))

/-- From every reachable state: a leader pulse, the 32 data pulses of a key and one overflow,
with any polls before the overflow.  The next poll reports the key exactly when the overflow
counter was `0` at the start (as it is whenever no leader is held), or a key was published
and every poll before the overflow found one. -/
theorem key_received_iff {s : State} {bits : List Bool} (h : Reachable Any s bits)
    {key : BitVec 8} (hkey : key ≠ 0) {evs : List Event} {w : ℕ} {ws : List ℕ} (hw : IsLeader w)
    (hws : ws.map bitOf = (spell key).map some)
    (hevs : evs.filter (· ≠ .scan) = pulses (w :: ws)) :
    (remoteScan (run s (evs ++ [.overflow]))).1 = key ↔
      count s.sta = 0 ∨ (published s.sta = true ∧ Sees s.data evs) := by
  have hpulses : Pulses false evs (w :: ws) := pulses_of_filter (fun h => by cases h) hevs
  have hbits : ws.filterMap bitOf = spell key := by
    have hid := congrArg (List.filterMap id) hws
    simpa [List.filterMap_map] using hid
  have hdata : ∀ w' ∈ ws, ¬(2000 < w' ∧ w' < 3000) := by
    intro w' hw'
    have hmem : bitOf w' ∈ (spell key).map some := hws ▸ List.mem_map_of_mem hw'
    obtain ⟨b, -, hb⟩ := List.mem_map.mp hmem
    exact bitOf_some hb.symm
  -- the register holds the frame, whatever it held before
  have hframe : ∀ data, (spell key).foldl shiftIn data = frame key := fun data => by
    have hreg := (register_nil data).foldl (spell key)
    rw [List.nil_append] at hreg
    exact (hreg.eq_frame_iff (length_spell key).ge key).mpr List.suffix_rfl
  have hend : leader (run s evs).sta = true ∧ count (run s evs).sta = count s.sta ∧
      (run s evs).data = frame key ∧
      (leader s.sta = true → (published (run s evs).sta = true ↔
        published s.sta = true ∧ Sees s.data evs)) := by
    cases hl : leader s.sta with
    | true =>
        obtain ⟨hnone, hrep⟩ := hw.not_data
        obtain ⟨h₁, h₂, h₃, h₄⟩ := run_pulses hpulses
          (List.forall_mem_cons.mpr ⟨hrep, hdata⟩) (fun h => by cases h) hl
        rw [List.filterMap_cons_none hnone, hbits, hframe] at h₃
        exact ⟨h₁, h₂, h₃, fun _ => h₄⟩
    | false =>
        obtain ⟨t, evs', hrun, hp, ht, hc, -⟩ := run_leader hpulses hw (fun h => by cases h) hl
        obtain ⟨h₁, h₂, h₃, -⟩ := run_pulses hp hdata (fun h => by cases h) ht
        rw [hbits, hframe] at h₃
        rw [hrun]
        exact ⟨h₁, h₂.trans hc, h₃, fun h => by cases h⟩
  obtain ⟨hlead, hcount, hreg, hpub⟩ := hend
  have hrun : run s (evs ++ [.overflow]) = periodElapsedCallback (run s evs) := by
    rw [run, List.foldl_append]
    rfl
  have hpublished : published (periodElapsedCallback (run s evs)).sta = true ↔
      count s.sta = 0 ∨ published (run s evs).sta = true := by
    rw [periodElapsedCallback, sta_elapsed _ hlead, hcount, Bool.or_eq_true, decide_eq_true_eq,
      or_comm]
  have hscan : (remoteScan (periodElapsedCallback (run s evs))).1 = key ↔
      published (periodElapsedCallback (run s evs)).sta = true := by
    by_cases hp : published (periodElapsedCallback (run s evs)).sta = true
    · have hval : (remoteScan (periodElapsedCallback (run s evs))).1 = keyOf (run s evs).data := by
        rw [remoteScan, if_pos hp]
        rfl
      rw [hval, hreg]
      exact ⟨fun _ => hp, fun _ => (keyOf_eq_iff hkey).mpr rfl⟩
    · rw [remoteScan, if_neg hp]
      exact ⟨fun h => absurd h.symm hkey, fun h => absurd h hp⟩
  rw [hrun, hscan, hpublished]
  cases hl : leader s.sta with
  | true => rw [hpub hl]
  | false => simp [h.idle hl]

theorem key_received_reset :
    (remoteScan (run ⟨0, 0, 0⟩ (send 69 ++ [.overflow]))).1 = 69 ↔
      count 0 = 0 ∨ (published 0 = true ∧ Sees 0 (send 69)) :=
  @key_received_iff _ _ .reset 69 (by decide) _ 4500
    ((spell 69).map fun b => if b then 1680 else 560) (by decide) (by decide +kernel)
      (by decide +kernel)

/-- A key sent while the receiver still counts the overflows of a frame that a poll has
found broken: it is not reported. -/
theorem key_lost : ∃ s bits, Reachable Any s bits ∧
    (send 69).filter (· ≠ .scan) =
      pulses (4500 :: (spell 69).map fun b => if b then 1680 else 560) ∧
    IsLeader 4500 ∧
    ((spell 69).map fun b => if b then 1680 else 560).map bitOf = (spell 69).map some ∧
    (remoteScan (run s (send 69 ++ [.overflow]))).1 ≠ 69 := by
  set evs : List Event := [.rise, .fall 4500, .overflow, .scan] with hevs
  have hreach : Reachable Any (run ⟨0, 0, 0⟩ evs) (heardAll ⟨0, 0, 0⟩ [] evs) :=
    Reachable.reset.run evs (by rw [hevs]; decide +kernel)
  refine ⟨_, _, hreach, ?_, ?_, ?_, ?_⟩
  · decide +kernel
  · decide
  · decide +kernel
  · rw [hevs]
    decide +kernel

end Apollo.Remote
