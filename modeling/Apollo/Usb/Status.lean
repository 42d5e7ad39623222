import Apollo.Usb.Range

/-!
# A status for a command

Each CSW that the host gets is the answer to the last CBW that it sent, with the tag of that CBW,
and no CBW is answered twice.  This holds in every run in which the host does three things right: it
sends nothing while there is something for it to fetch, no CBW of its is for unit 3, and it clears
the halt of the IN endpoint only if that is halted.  A reset may come at any moment, and what the
host sends may be anything else.

## Main definitions

* `Label`, `HostEvent.label` — what an event is to the protocol.
* `OneEach` — the statuses answer the commands.
* `Polite` — what the host does right.
* `InStep` — the invariant of a run; `statuses_answer` — the statuses of every run answer.
-/

namespace Apollo.Usb
open Lib

/-- What happens on the wire, as far as the protocol is concerned. -/
inductive Label where
  | command (tag : ℕ)
  | status (csw : Csw)
  | other

/-- A status is for the command that is owed one. -/
def Label.Due : Label → Option ℕ → Prop
  | .status csw, owed => owed = some csw.dTag
  | _, _ => True

/-- The command that is owed a status afterwards. -/
def Label.owed : Label → Option ℕ → Option ℕ
  | .command tag, _ => some tag
  | .status _, _ => none
  | .other, owed => owed

/-- Each status is for the last command, and there is one at most. -/
def OneEach : Option ℕ → List Label → Prop
  | _, [] => True
  | owed, l :: ls => l.Due owed ∧ OneEach (l.owed owed) ls

section Events
variable {σ : Type} (F : Fops σ)

/-- A packet that is taken for a CBW is a command, and a CSW that is fetched is a status. -/
def HostEvent.label (e : HostEvent) (h : Msc σ) (a : Answer) : Label :=
  match e, a with
  | .out size bytes, .ack =>
      if h.rx = some .cbw then .command (takePacket size bytes h).dTag else .other
  | .poll, .status csw => .status csw
  | _, _ => .other

/-- The labels of a run. -/
def labels : List HostEvent → Msc σ → List Label
  | [], _ => []
  | e :: es, h =>
      match (e.run F).val h with
      | none => []
      | some a => e.label h a :: labels es ((e.run F).state h)

/-- The host fetches what there is before it sends anything, no CBW of its is for unit 3, and it
clears the halt of the IN endpoint only if that is halted. -/
def HostEvent.Polite (h : Msc σ) : HostEvent → Prop
  | .out size bytes => h.tx = none ∧ (h.rx = some .cbw → size = 31 → (bytes 13).toNat ≠ 3)
  | .clearHalt epIn => epIn = true → h.stallIn = true
  | _ => True

instance (e : HostEvent) (h : Msc σ) : Decidable (e.Polite h) :=
  match e with
  | .out size bytes =>
      inferInstanceAs (Decidable (h.tx = none ∧
        (h.rx = some .cbw → size = 31 → (bytes 13).toNat ≠ 3)))
  | .clearHalt epIn => inferInstanceAs (Decidable (epIn = true → h.stallIn = true))
  | .poll | .reset | .getMaxLun => inferInstanceAs (Decidable True)

/-- Each event of the run is polite. -/
def Polite : List HostEvent → Msc σ → Prop
  | [], _ => True
  | e :: es, h => e.Polite h ∧ Polite es ((e.run F).state h)

instance decidablePolite (es : List HostEvent) (h : Msc σ) : Decidable (Polite F es h) :=
  match es with
  | [] => inferInstanceAs (Decidable True)
  | e :: es =>
      have := decidablePolite es ((e.run F).state h)
      inferInstanceAs (Decidable (e.Polite h ∧ Polite F es ((e.run F).state h)))

end Events

section Run
variable {σ : Type} {F : Fops σ}

/-- The class and the host agree on what is owed: the tag of a CBW without a CSW, if any. -/
structure InStep (owed : Option ℕ) (h : Msc σ) : Prop where
  csw : h.tx = some .csw → h.botState = .idle ∧ owed = some h.csw.dTag
  busy : h.botState ≠ .idle → h.botState ≠ .noData → owed = some h.csw.dTag
  stalled : h.stallIn = true → h.rx = none ∧ (h.botStatus = .normal → owed = some h.csw.dTag)
  error : h.botStatus = .error → h.rx = none ∧ h.tx = none ∧ h.botState = .idle
  cbw : h.rx = some .cbw → h.botState = .idle
  data : ∀ len, h.rx = some (.data len) → h.botState = .dataOut
  reading : h.botState = .dataIn → isRead (h.cb 0)
  writing : h.botState = .dataOut → isWrite (h.cb 0)

/-- What a command leaves that came with this tag. -/
structure Outcome (tag : ℕ) (r : Option ℤ) (t : Msc σ) : Prop where
  tag : t.csw.dTag = tag
  tx : t.tx ≠ some .csw
  stallIn : t.stallIn = false
  error : t.botStatus = .error → r = some (-1) ∧ t.rx = none ∧ t.tx = none ∧ t.botState = .idle
  rx : t.rx = none ∨ r = some 0 ∧ (∃ len, t.rx = some (.data len)) ∧ t.botState = .dataOut
  reading : t.botState = .dataIn → isRead (t.cb 0)
  writing : t.botState = .dataOut → isWrite (t.cb 0)

/-- A CSW is on its way. -/
theorem inStep_sendCSW {owed : Option ℕ} {h : Msc σ} (htag : owed = some h.csw.dTag)
    (hstall : h.stallIn = false) (herror : h.botStatus ≠ .error) (n : ℕ) :
    InStep owed ((mscBotSendCSW n).state h) where
  csw _ := ⟨rfl, htag⟩
  busy hidle := absurd rfl hidle
  stalled hs := absurd (hstall.symm.trans hs) (by decide)
  error he := absurd he herror
  cbw _ := rfl
  data _ hd := by cases hd
  reading hs := by cases hs
  writing hs := by cases hs

theorem Outcome.inStep {tag : ℕ} {r : Option ℤ} {t : Msc σ} (ht : Outcome tag r t) :
    InStep (some tag) t where
  csw hc := absurd hc ht.tx
  busy _ _ := by rw [ht.tag]
  stalled hs := absurd (ht.stallIn.symm.trans hs) (by decide)
  error he := (ht.error he).2
  cbw hc := by
    rcases ht.rx with hrx | ⟨-, ⟨len, hrx⟩, -⟩
    · rw [hrx] at hc; cases hc
    · rw [hrx] at hc; cases hc
  data len hd := by
    rcases ht.rx with hrx | ⟨-, -, hout⟩
    · rw [hrx] at hd; cases hd
    · exact hout
  reading := ht.reading
  writing := ht.writing

/-- After the command a CSW or the data is on its way, or the endpoint is halted. -/
theorem inStep_afterCmd {tag : ℕ} {r : ℤ} {t : Msc σ} (ht : Outcome tag (some r) t) :
    InStep (some tag) ((afterCmd r).state t) := by
  have htag : some tag = some t.csw.dTag := by rw [ht.tag]
  rw [afterCmd, Prog.state_bind, Prog.val_get, Prog.state_get, id, Prog.state_ite]
  split
  · rename_i hneg
    have hrx : t.rx = none := by
      rcases ht.rx with hrx | ⟨hr, -⟩
      · exact hrx
      · cases hr; exact absurd hneg (by decide)
    rw [Prog.state_ite]
    split
    · rename_i hno
      refine inStep_sendCSW htag ht.stallIn (fun he => ?_) 1
      exact absurd (hno.symm.trans (ht.error he).2.2.2) (by decide)
    · exact ⟨fun hc => absurd hc ht.tx, fun _ _ => htag, fun _ => ⟨hrx, fun _ => htag⟩,
        fun he => (ht.error he).2, fun hc => absurd (hrx.symm.trans hc) (by simp),
        fun len hd => absurd (hrx.symm.trans hd) (by simp), ht.reading, ht.writing⟩
  · rename_i hpos
    have hfine : t.botStatus ≠ .error := fun he => by
      have hr := (ht.error he).1
      cases hr
      exact hpos (by decide)
    rw [Prog.state_ite]
    split
    · rename_i hover
      have hrx : t.rx = none := by
        rcases ht.rx with hrx | ⟨-, -, hout⟩
        · exact hrx
        · exact absurd hout hover.2.1
      rw [Prog.state_ite]
      split
      · exact ⟨fun hc => (by cases hc), fun _ _ => htag,
          fun hs => absurd (ht.stallIn.symm.trans hs) (by decide), fun he => absurd he hfine,
          fun hc => absurd (hrx.symm.trans hc) (by simp),
          fun len hd => absurd (hrx.symm.trans hd) (by simp), fun hs => (by cases hs),
          fun hs => (by cases hs)⟩
      · exact inStep_sendCSW htag ht.stallIn hfine 0
    · exact ht.inStep

/-! ## Commands -/

/-- No block has been moved yet since this state. -/
def Unmoved (h t : Msc σ) : Prop :=
  t.link = h.link ∧ t.botStatus ≠ .error ∧ (t.botState = .idle ∨ t.botState = .noData)

theorem undisturbed_unmoved (F : Fops σ) (lun : ℕ) (h : Msc σ) : Undisturbed F lun (Unmoved h) where
  data _ _ _ ht := ht
  sense _ _ _ _ ht := ht
  medium _ _ ht := ht
  blocks _ _ _ ht := ht
  noData _ ht := ⟨ht.1, ht.2.1, .inr rfl⟩
  isReady _ ht := ht
  isWriteProtected _ ht := ht
  getCapacity _ _ ht := ht
  noteCapacity _ ht := ht

/-- A CBW has been taken and the class is at work on it. -/
structure Taken (h : Msc σ) : Prop where
  rx : h.rx = none
  tx : h.tx = none
  stallIn : h.stallIn = false
  idle : h.botState = .idle
  fine : h.botStatus ≠ .error

namespace Taken
variable {h : Msc σ} (hh : Taken h)
include hh

theorem unmoved : Unmoved h h := ⟨rfl, hh.fine, .inl hh.idle⟩

/-- The endpoints are as they were. -/
theorem of_link {t : Msc σ} (hlink : t.link = h.link) :
    t.csw.dTag = h.csw.dTag ∧ t.tx ≠ some .csw ∧ t.rx = none ∧ t.stallIn = false ∧
      t.cb = h.cb := by
  simp only [Msc.link, Prod.mk.injEq] at hlink
  obtain ⟨hcbw, hcsw, htx, hrx, hstall, -⟩ := hlink
  refine ⟨congrArg Csw.dTag hcsw, ?_, hrx.trans hh.rx, hstall.trans hh.stallIn,
    congrArg (shift · 15) hcbw⟩
  rw [htx, hh.tx]
  simp

theorem outcome {t : Msc σ} (ht : Unmoved h t) (r : Option ℤ) : Outcome h.csw.dTag r t := by
  obtain ⟨hlink, hfine, hstate⟩ := ht
  obtain ⟨hcsw, htx, hrx, hstall, -⟩ := hh.of_link hlink
  refine ⟨hcsw, htx, hstall, fun he => absurd he hfine, .inl hrx, fun hs => ?_, fun hs => ?_⟩
  · rcases hstate with hi | hi <;> exact absurd (hi.symm.trans hs) (by decide)
  · rcases hstate with hi | hi <;> exact absurd (hi.symm.trans hs) (by decide)

/-- A read is refused, or its first part is on its way. -/
theorem outcome_read (blkLen : (ℕ → UInt8) → ℕ) (hkind : isRead (h.cb 0)) :
    Outcome h.csw.dTag ((scsiRead F blkLen h.bLUN h.cb).val h)
      ((scsiRead F blkLen h.bLUN h.cb).state h) := by
  have hcases := (undisturbed_unmoved F h.bLUN h).read_cases blkLen h.cb hh.idle hh.unmoved
  rcases hcases with ⟨t, hrun, ht⟩ | ⟨t, ht, -, hrun⟩
  · rw [Prog.val, Prog.state, hrun]
    exact hh.outcome ht _
  · obtain ⟨hlink, hfine, -⟩ := ht
    obtain ⟨hcsw, htx, hrx, hstall, hcb⟩ := hh.of_link hlink
    have hkind' : isRead (t.cb 0) := by rwa [hcb]
    rw [Prog.val, Prog.state, hrun, processRead_apply]
    split
    · exact ⟨hcsw, htx, hstall, fun he => absurd he hfine, .inl hrx, fun _ => hkind',
        fun hs => (by cases hs)⟩
    split
    · exact ⟨hcsw, htx, hstall,
        fun he => absurd he hfine, .inl hrx, fun _ => hkind', fun hs => (by cases hs)⟩
    · rw [endRead]
      split
      · exact ⟨hcsw, fun hc => (by cases hc), hstall, fun he => absurd he hfine, .inl hrx,
          fun _ => hkind', fun hs => (by cases hs)⟩
      · exact ⟨hcsw, fun hc => (by cases hc), hstall, fun he => absurd he hfine, .inl hrx,
          fun _ => hkind', fun hs => (by cases hs)⟩

/-- A write is refused, or its first part is asked for. -/
theorem outcome_write (blkLen : (ℕ → UInt8) → ℕ) {notReady : Prog (Msc σ) Unit}
    (hnot : notReady.Maintains (Unmoved h)) (hkind : isWrite (h.cb 0)) :
    Outcome h.csw.dTag ((scsiWrite F blkLen notReady h.bLUN h.cb).val h)
      ((scsiWrite F blkLen notReady h.bLUN h.cb).state h) := by
  have hcases := (undisturbed_unmoved F h.bLUN h).write_cases blkLen hnot h.cb hh.idle hh.unmoved
  rcases hcases with ⟨t, hrun, ht⟩ | ⟨t, ht, -, hrun⟩
  · rw [Prog.val, Prog.state, hrun]
    exact hh.outcome ht _
  · obtain ⟨hlink, hfine, -⟩ := ht
    obtain ⟨hcsw, htx, -, hstall, hcb⟩ := hh.of_link hlink
    have hkind' : isWrite (t.cb 0) := by rwa [hcb]
    rw [Prog.val, Prog.state, hrun]
    exact ⟨hcsw, htx, hstall,
      fun he => absurd he hfine, .inr ⟨rfl, ⟨_, rfl⟩, rfl⟩, fun hs => (by cases hs),
      fun _ => hkind'⟩

/-- A command is carried out. -/
theorem outcome_processCmd (F : Fops σ) :
    Outcome h.csw.dTag ((scsiProcessCmd F h.bLUN h.cb).val h)
      ((scsiProcessCmd F h.bLUN h.cb).state h) := by
  by_cases hread : isRead (h.cb 0)
  · rcases id hread with hcmd | hcmd
    · rw [processCmd_read10 F hcmd]
      exact hh.outcome_read _ hread
    · rw [processCmd_read12 F hcmd]
      exact hh.outcome_read _ hread
  by_cases hwrite : isWrite (h.cb 0)
  · rcases id hwrite with hcmd | hcmd
    · rw [processCmd_write10 F hcmd]
      exact hh.outcome_write _ (.pure ()) hwrite
    · rw [processCmd_write12 F hcmd]
      refine hh.outcome_write _ (.modify fun t ht => ?_) hwrite
      exact ⟨ht.1, ht.2.1, .inr rfl⟩
  rcases (undisturbed_unmoved F h.bLUN h).processCmd hread hwrite with hnone | hkept
  · rw [hnone]
    have hidle : h.botState ≠ .dataIn ∧ h.botState ≠ .dataOut := by rw [hh.idle]; decide
    exact ⟨rfl, fun hc => absurd (hh.tx.symm.trans hc) (by simp), hh.stallIn,
      fun _ => ⟨rfl, hh.rx, hh.tx, hh.idle⟩, .inl hh.rx, fun hs => absurd hs hidle.1,
      fun hs => absurd hs hidle.2⟩
  · exact hh.outcome (hkept h hh.unmoved) _

end Taken

/-- A CBW is answered, or its data is moved, or the endpoints are halted. -/
theorem inStep_cbwDecode (F : Fops σ) {h : Msc σ} (hh : Taken h) :
    InStep (some h.dTag) ((mscBotCBWDecode F).state h) := by
  rw [mscBotCBWDecode, Prog.state_bind, Prog.state_modify, Prog.state_bind, Prog.val_get,
    Prog.state_get]
  set h₁ : Msc σ :=
    { h with csw := { h.csw with dTag := h.dTag, dDataResidue := h.dDataLength } } with hh₁
  have hh' : Taken h₁ := ⟨hh.rx, hh.tx, hh.stallIn, hh.idle, hh.fine⟩
  have hdone : Outcome h.dTag ((scsiProcessCmd F h₁.bLUN h₁.cb).val h₁)
    ((scsiProcessCmd F h₁.bLUN h₁.cb).state h₁) := hh'.outcome_processCmd F
  simp only [id]
  rw [Prog.state_ite]
  split
  · exact ⟨fun hc => absurd (hh.tx.symm.trans hc) (by simp), fun _ _ => rfl,
      fun _ => ⟨hh.rx, fun _ => rfl⟩, fun _ => ⟨hh.rx, hh.tx, hh.idle⟩, fun _ => hh.idle,
      fun len hd => absurd (hh.rx.symm.trans hd) (by simp),
      fun hs => absurd (hh.idle.symm.trans hs) (by decide),
      fun hs => absurd (hh.idle.symm.trans hs) (by decide)⟩
  · rw [Prog.state_bind]
    cases hval : (scsiProcessCmd F h₁.bLUN h₁.cb).val h₁ with
    | none => exact hdone.inStep
    | some r =>
        rw [hval] at hdone
        exact inStep_afterCmd hdone

/-! ## Transfers -/

/-- A transfer is going on, and nothing is the matter. -/
structure AtWork (owed : Option ℕ) (h : Msc σ) : Prop extends InStep owed h where
  tag : owed = some h.csw.dTag
  flowing : h.stallIn = false
  fine : h.botStatus ≠ .error

theorem AtWork.sendCSW {owed : Option ℕ} {h : Msc σ} (hh : AtWork owed h) (n : ℕ) :
    InStep owed ((mscBotSendCSW n).state h) := inStep_sendCSW hh.tag hh.flowing hh.fine n

/-- A part that fails ends the transfer. -/
theorem inStep_goOn {owed : Option ℕ} {h : Msc σ}
    (hh : AtWork owed ((scsiProcessCmd F h.bLUN h.cb).state h)) :
    InStep owed ((goOn F).state h) := by
  rw [goOn, Prog.state_bind, Prog.val_get, Prog.state_get, Prog.state_bind]
  cases (scsiProcessCmd F (id h).bLUN (id h).cb).val h with
  | none => exact hh.toInStep
  | some r =>
      simp only [id]
      split
      · exact hh.sendCSW 1
      · exact hh.toInStep

theorem atWork_processRead {owed : Option ℕ} {h : Msc σ} (hh : AtWork owed h) (hrx : h.rx = none)
    (hstate : h.botState = .dataIn) (lun : ℕ) :
    AtWork owed ((scsiProcessRead F lun).state h) := by
  have hread := hh.reading hstate
  rw [Prog.state, processRead_apply]
  split
  · exact ⟨⟨hh.csw, hh.busy, hh.stalled, hh.error, hh.cbw, hh.data, hh.reading, hh.writing⟩,
      hh.tag, hh.flowing, hh.fine⟩
  split
  · exact ⟨⟨hh.csw, hh.busy, hh.stalled, hh.error, hh.cbw, hh.data, hh.reading, hh.writing⟩,
      hh.tag, hh.flowing, hh.fine⟩
  · have hstop {s : Prop} (hs : h.stallIn = true) : s :=
      absurd (hh.flowing.symm.trans hs) (by decide)
    rw [endRead]
    split
    · exact ⟨⟨fun hc => (by cases hc), fun _ _ => hh.tag, hstop, fun he => absurd he hh.fine,
        fun hc => absurd (hrx.symm.trans hc) (by simp),
        fun len hd => absurd (hrx.symm.trans hd) (by simp), fun hs => (by cases hs),
        fun hs => (by cases hs)⟩, hh.tag, hh.flowing, hh.fine⟩
    · exact ⟨⟨fun hc => (by cases hc), fun _ _ => hh.tag, hstop, fun he => absurd he hh.fine,
        fun hc => absurd (hrx.symm.trans hc) (by simp),
        fun len hd => absurd (hrx.symm.trans hd) (by simp), fun _ => hread,
        fun hs => absurd (hstate.symm.trans hs) (by decide)⟩, hh.tag, hh.flowing, hh.fine⟩

theorem atWork_processWrite {owed : Option ℕ} {h : Msc σ} (hh : AtWork owed h)
    (hstate : h.botState = .dataOut) (htx : h.tx = none) (lun : ℕ) :
    AtWork owed ((scsiProcessWrite F lun).state h) := by
  have hwrite := hh.writing hstate
  have hstop {s : Prop} (hs : h.stallIn = true) : s :=
    absurd (hh.flowing.symm.trans hs) (by decide)
  rw [Prog.state, processWrite_apply]
  split
  · exact ⟨⟨hh.csw, hh.busy, hh.stalled, hh.error, hh.cbw, hh.data, hh.reading, hh.writing⟩,
      hh.tag, hh.flowing, hh.fine⟩
  split
  · exact ⟨⟨hh.csw, hh.busy, hh.stalled, hh.error, hh.cbw, hh.data, hh.reading, hh.writing⟩,
      hh.tag, hh.flowing, hh.fine⟩
  · set t := (advance h.chunk).state (wasWritten F lun h) with ht
    have htag : owed = some t.csw.dTag := hh.tag
    have hstall : t.stallIn = false := hh.flowing
    have hfine : t.botStatus ≠ .error := hh.fine
    rw [endWrite]
    split
    · exact ⟨inStep_sendCSW htag hstall hfine 0, htag, hstall, hfine⟩
    · exact ⟨⟨fun hc => absurd (htx.symm.trans hc) (by simp), fun _ _ => hh.tag, hstop,
        fun he => absurd he hh.fine, fun hc => (by cases hc), fun _ _ => hstate,
        fun hs => absurd (hstate.symm.trans hs) (by decide), fun _ => hwrite⟩, hh.tag, hh.flowing,
        hh.fine⟩

/-- A transfer to the host goes on. -/
theorem inStep_moreRead {owed : Option ℕ} {h : Msc σ} (hh : AtWork owed h) (hrx : h.rx = none)
    (hstate : h.botState = .dataIn) : InStep owed ((goOn F).state h) := by
  have hbusy : ¬ h.botState = .idle := by rw [hstate]; decide
  have hmore (blkLen : (ℕ → UInt8) → ℕ) :
      AtWork owed ((scsiRead F blkLen h.bLUN h.cb).state h) := by
    rw [scsiRead, Prog.state_bind, Prog.val_get, Prog.state_get, id, if_neg hbusy,
      Prog.state_bind]
    set h₁ : Msc σ := (setDataLength mscMediaPacket).state h with hh₁
    have hh' : AtWork owed h₁ := ⟨⟨hh.csw, hh.busy, hh.stalled, hh.error, hh.cbw, hh.data,
      hh.reading, hh.writing⟩, hh.tag, hh.flowing, hh.fine⟩
    exact atWork_processRead hh' hrx hstate _
  refine inStep_goOn ?_
  rcases hh.reading hstate with hcmd | hcmd
  · rw [processCmd_read10 F hcmd]
    exact hmore _
  · rw [processCmd_read12 F hcmd]
    exact hmore _

/-- A transfer from the host goes on. -/
theorem inStep_moreWrite {owed : Option ℕ} {h : Msc σ} (hh : AtWork owed h) (htx : h.tx = none)
    (hstate : h.botState = .dataOut) : InStep owed ((goOn F).state h) := by
  have hbusy : ¬ h.botState = .idle := by rw [hstate]; decide
  have hmore (blkLen : (ℕ → UInt8) → ℕ) (notReady : Prog (Msc σ) Unit) :
      AtWork owed ((scsiWrite F blkLen notReady h.bLUN h.cb).state h) := by
    rw [scsiWrite, Prog.state_bind, Prog.val_get, Prog.state_get, id, if_neg hbusy]
    exact atWork_processWrite hh hstate htx _
  refine inStep_goOn ?_
  rcases hh.writing hstate with hcmd | hcmd
  · rw [processCmd_write10 F hcmd]
    exact hmore _ _
  · rw [processCmd_write12 F hcmd]
    exact hmore _ _

/-! ## Events -/

theorem InStep.flowing {owed : Option ℕ} {h : Msc σ} (hh : InStep owed h) (hrx : h.rx ≠ none) :
    h.stallIn = false := by
  by_contra hstall
  exact hrx (hh.stalled ((Bool.not_eq_false _).mp hstall)).1

/-- A packet that is taken. -/
theorem inStep_packet (F : Fops σ) {owed : Option ℕ} {h : Msc σ} (hh : InStep owed h)
    (hrx : h.rx ≠ none) (htx : h.tx = none) (size : ℕ) (bytes : ℕ → UInt8) :
    InStep (((HostEvent.out size bytes).label h .ack).owed owed)
      ((mscBotDataOut F).state (takePacket size bytes h)) := by
  have hstall := hh.flowing hrx
  have hfine : h.botStatus ≠ .error := fun he => hrx (hh.error he).1
  cases hcase : h.rx with
  | none => exact absurd hcase hrx
  | some r =>
      cases r with
      | cbw =>
          have hidle := hh.cbw hcase
          have htaken : Taken (takePacket size bytes h) := by
            rw [takePacket_cbw hcase]
            exact ⟨rfl, htx, hstall, hidle, hfine⟩
          rw [HostEvent.label, if_pos hcase, mscBotDataOut, Prog.state_bind, Prog.val_get,
            Prog.state_get]
          simp only [id, htaken.idle]
          exact inStep_cbwDecode F htaken
      | data len =>
          have hout := hh.data len hcase
          have hnot : ¬ h.rx = some .cbw := by rw [hcase]; simp
          have hbusy : owed = some h.csw.dTag :=
            hh.busy (by rw [hout]; decide) (by rw [hout]; decide)
          have hwork : AtWork owed (takePacket size bytes h) := by
            rw [takePacket_data hcase]
            exact ⟨⟨hh.csw, hh.busy, fun hs => absurd (hstall.symm.trans hs) (by decide),
              fun he => absurd he hfine, fun hc => (by cases hc), fun _ hd => (by cases hd),
              hh.reading, hh.writing⟩, hbusy, hstall, hfine⟩
          have hstate : (takePacket size bytes h).botState = .dataOut := by
            rw [takePacket_data hcase]
            exact hout
          have htx' : (takePacket size bytes h).tx = none := by
            rw [takePacket_data hcase]
            exact htx
          rw [HostEvent.label, if_neg hnot, mscBotDataOut, Prog.state_bind, Prog.val_get,
            Prog.state_get]
          simp only [id, hstate]
          exact inStep_moreWrite hwork htx' hstate

/-- What the IN endpoint had has been fetched. -/
theorem inStep_fetched (F : Fops σ) {owed : Option ℕ} {h : Msc σ} (hh : InStep owed h) {t : Tx}
    (htx : h.tx = some t) (hstall : h.stallIn = false) :
    (HostEvent.poll.label h (h.sends t)).Due owed ∧
      InStep ((HostEvent.poll.label h (h.sends t)).owed owed)
        ((mscBotDataIn F).state { h with tx := none }) := by
  have hfine : h.botStatus ≠ .error := fun he => by
    rw [(hh.error he).2.1] at htx
    cases htx
  set h₁ : Msc σ := { h with tx := none } with hh₁
  rw [mscBotDataIn, Prog.state_bind, Prog.val_get, Prog.state_get]
  cases t with
  | csw =>
      obtain ⟨hidle, htag⟩ := hh.csw htx
      have hidle' : h₁.botState = .idle := hidle
      simp only [id, hidle']
      exact ⟨htag, fun hc => (by cases hc), fun hb => absurd hidle hb,
        fun hs => absurd (hstall.symm.trans hs) (by decide), fun he => absurd he hfine,
        fun _ => hidle, hh.data, hh.reading, hh.writing⟩
  | data len =>
      have hfetched : InStep owed h₁ := ⟨fun hc => (by cases hc), hh.busy, hh.stalled,
        fun he => absurd he hfine, hh.cbw, hh.data, hh.reading, hh.writing⟩
      refine ⟨trivial, ?_⟩
      change InStep owed _
      cases hstate : h.botState with
      | dataIn =>
          have hstate' : h₁.botState = .dataIn := hstate
          have htag : owed = some h.csw.dTag :=
            hh.busy (by rw [hstate]; decide) (by rw [hstate]; decide)
          have hrx : h₁.rx = none := by
            cases hrx : h.rx with
            | none => rfl
            | some r =>
                cases r with
                | cbw => exact absurd (hstate.symm.trans (hh.cbw hrx)) (by decide)
                | data n => exact absurd (hstate.symm.trans (hh.data n hrx)) (by decide)
          simp only [id, hstate']
          exact inStep_moreRead ⟨hfetched, htag, hstall, hfine⟩ hrx hstate'
      | sendData =>
          have hstate' : h₁.botState = .sendData := hstate
          simp only [id, hstate']
          exact inStep_sendCSW (h := h₁) (hh.busy (by rw [hstate]; decide) (by rw [hstate]; decide))
            hstall hfine 0
      | lastDataIn =>
          have hstate' : h₁.botState = .lastDataIn := hstate
          simp only [id, hstate']
          exact inStep_sendCSW (h := h₁) (hh.busy (by rw [hstate]; decide) (by rw [hstate]; decide))
            hstall hfine 0
      | _ =>
          have hstate' : h₁.botState = _ := hstate
          simp only [id, hstate']
          exact hfetched

/-- The host clears a halt that there is. -/
theorem inStep_clearHalt {owed : Option ℕ} {h : Msc σ} (hh : InStep owed h) {epIn : Bool}
    (hhalt : epIn = true → h.stallIn = true) :
    InStep owed ((HostEvent.run F (.clearHalt epIn)).state h) := by
  rw [HostEvent.run, Prog.state_bind, Prog.state_modify, Prog.state_bind, Prog.state_pure,
    mscBotCplClrFeature, Prog.state_bind, Prog.val_get, Prog.state_get, id]
  cases epIn with
  | false =>
      simp only [Bool.false_eq_true, if_false, false_and]
      rw [Prog.state_ite]
      split
      · rename_i he
        exact ⟨hh.csw, hh.busy,
          fun _ => ⟨(hh.error he).1, fun hn => absurd (hn.symm.trans he) (by decide)⟩,
          hh.error, hh.cbw, hh.data, hh.reading, hh.writing⟩
      · exact ⟨hh.csw, hh.busy, hh.stalled, hh.error, hh.cbw, hh.data, hh.reading, hh.writing⟩
  | true =>
      obtain ⟨hrx, howed⟩ := hh.stalled (hhalt rfl)
      set h₁ : Msc σ := { h with stallIn := false, tx := none } with hh₁
      have hcleared : InStep owed h₁ := ⟨fun hc => (by cases hc), hh.busy, fun hs => (by cases hs),
        fun he => ⟨hrx, rfl, (hh.error he).2.2⟩, hh.cbw, hh.data, hh.reading, hh.writing⟩
      simp only [if_true, true_and]
      rw [Prog.state_ite]
      split
      · rename_i he
        exact ⟨hcleared.csw, hcleared.busy,
          fun _ => ⟨hrx, fun hn => absurd (hn.symm.trans he) (by decide)⟩, hcleared.error,
          hcleared.cbw, hcleared.data, hcleared.reading, hcleared.writing⟩
      rename_i hfine
      rw [Prog.state_ite]
      split
      · rename_i hrecovery
        have hnormal : h.botStatus = .normal := by
          cases hstatus : h.botStatus with
          | normal => rfl
          | recovery => exact absurd hstatus hrecovery
          | error => exact absurd hstatus hfine
        exact inStep_sendCSW (h := h₁) (howed hnormal) rfl hfine 1
      · exact hcleared

/-- Whatever a polite host does, one thing at a time. -/
theorem inStep_event (F : Fops σ) {owed : Option ℕ} {h : Msc σ} (hh : InStep owed h)
    {e : HostEvent} (he : e.Polite h) {a : Answer} (ha : (e.run F).val h = some a) :
    (e.label h a).Due owed ∧ InStep ((e.label h a).owed owed) ((e.run F).state h) := by
  cases e with
  | out size bytes =>
      rw [HostEvent.run, Prog.val_bind, Prog.val_get, Prog.state_get, Prog.val_ite] at ha
      rw [HostEvent.run, Prog.state_bind, Prog.val_get, Prog.state_get, Prog.state_ite]
      split
      · rename_i hstop
        rw [if_pos hstop] at ha
        cases ha
        exact ⟨trivial, hh⟩
      rename_i hgo
      rw [if_neg hgo] at ha
      cases hroom : (id h).room with
      | none =>
          rw [hroom] at ha
          cases ha
          exact ⟨trivial, hh⟩
      | some room =>
          have hrx : h.rx ≠ none := fun hrx => by
            rw [id, Msc.room, hrx] at hroom
            cases hroom
          rw [hroom] at ha
          simp only [Prog.val_ite] at ha
          simp only [Prog.state_ite]
          split
          · rename_i hlong
            rw [if_pos hlong] at ha
            cases ha
            exact ⟨trivial, hh⟩
          · rename_i hfits
            rw [if_neg hfits] at ha
            obtain ⟨-, -, rfl⟩ := Option.map_eq_some_iff.mp ha
            refine ⟨?_, inStep_packet F hh hrx he.1 size bytes⟩
            rw [HostEvent.label]
            split <;> trivial
  | poll =>
      rw [HostEvent.run, Prog.val_bind, Prog.val_get, Prog.state_get, Prog.val_ite] at ha
      rw [HostEvent.run, Prog.state_bind, Prog.val_get, Prog.state_get, Prog.state_ite]
      split
      · rename_i hstop
        rw [if_pos hstop] at ha
        cases ha
        exact ⟨trivial, hh⟩
      rename_i hgo
      rw [if_neg hgo] at ha
      cases htx : (id h).tx with
      | none =>
          rw [htx] at ha
          cases ha
          exact ⟨trivial, hh⟩
      | some t =>
          rw [htx] at ha
          obtain ⟨-, -, rfl⟩ := Option.map_eq_some_iff.mp ha
          exact inStep_fetched F hh htx (Bool.eq_false_iff.mpr hgo)
  | clearHalt epIn =>
      cases ha
      exact ⟨trivial, inStep_clearHalt hh he⟩
  | reset =>
      cases ha
      exact ⟨trivial, fun hc => ⟨rfl, (hh.csw hc).2⟩, fun hb => absurd rfl hb,
        fun hs => (by cases hs), fun he => (by cases he), fun _ => rfl, fun _ hd => (by cases hd),
        fun hs => (by cases hs), fun hs => (by cases hs)⟩
  | getMaxLun =>
      cases ha
      exact ⟨trivial, hh.csw, hh.busy, hh.stalled, hh.error, hh.cbw, hh.data, hh.reading,
        hh.writing⟩

theorem oneEach_labels (F : Fops σ) {es : List HostEvent} {owed : Option ℕ} {h : Msc σ}
    (hh : InStep owed h) (hes : Polite F es h) : OneEach owed (labels F es h) := by
  induction es generalizing owed h with
  | nil => trivial
  | cons e es ih =>
      rw [labels]
      cases ha : (e.run F).val h with
      | none => trivial
      | some a =>
          obtain ⟨hdue, hnext⟩ := inStep_event F hh hes.1 ha
          exact ⟨hdue, ih hnext hes.2⟩

/-- Each CSW that the host gets has the tag of the last CBW, and no CBW gets two, whatever the
host sends and in whatever order, as long as it fetches what there is before it sends, has no CBW
for unit 3, and clears no halt of the IN endpoint that there is not, and whatever the medium makes
of it. -/
theorem statuses_answer (F : Fops σ) {h : Msc σ} (hstall : h.stallIn = false)
    {es : List HostEvent} (hes : Polite F es ((mscBotInit F).state h)) :
    OneEach none (labels F es ((mscBotInit F).state h)) := by
  refine oneEach_labels F ?_ hes
  rw [mscBotInit, Prog.state_bind, Prog.state_modify, Prog.state_bind, Prog.state_modify]
  exact ⟨fun hc => (by cases hc), fun hb => absurd rfl hb,
    fun hs => absurd (hstall.symm.trans hs) (by decide), fun he => (by cases he), fun _ => rfl,
    fun _ hd => (by cases hd), fun hs => (by cases hs), fun hs => (by cases hs)⟩

end Run

/-- The capacity, and a read that begins at the last block and goes on. -/
def readPastEnd : List HostEvent :=
  [cbwIn 1 8 0 [0x25], .poll, .poll, cbwIn 2 0 4 [0x28, 0, 0, 0, 0, 99, 0, 0, 2], .poll,
    .clearHalt true, .poll]

theorem statuses_answer_pastEnd :
    OneEach none (labels still readPastEnd ((mscBotInit still).state (.fresh ()))) :=
  statuses_answer still rfl (by decide)

example : (runHost still readPastEnd).val ((mscBotInit still).state (.fresh ())) =
    [.ack, .data [0, 0, 0, 99, 0, 0, 2, 0], .status ⟨0x53425355, 1, 0, 0⟩, .ack, .stall, .ack,
      .status ⟨0x53425355, 2, 1024, 1⟩] := by decide

end Apollo.Usb
