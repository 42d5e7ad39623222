import Apollo.Lib.Prog
import Mathlib.Algebra.Group.Nat.Defs
import Mathlib.Data.List.Basic
import Mathlib.Data.List.Range
import Mathlib.Tactic.Common

/-!
# The line receiver

The receive interrupt stores bytes until CR LF, and packs what it knows into one 16-bit
word: bit 15 says that a line is complete, bit 14 that a CR has come, the rest counts the
bytes.  `usmart_get_input_string` hands a complete line over and clears the word.

The history of the receiver is the list of the bytes received since it was last reset.
While a complete line waits the interrupt changes nothing, so handing it over counts as
one step.

## Main definitions

* `RxState` — the receive buffer and the status word.
* `halUartRxCpltCallback`, `usmartGetInputString` — the interrupt and the consumer.
* `received` — the history after one more byte.
* `Reachable` — states and histories of every interleaving.
* `Phase` — the invariant; `line_receiver` — what it says.
-/

namespace Apollo.Usart
open Lib

def usartRecLen : ℕ := 200

/-- Carriage return. -/
def cr : ℕ := 0x0d

/-- Line feed. -/
def lf : ℕ := 0x0a

/-- `g_usart_rx_buf` and `g_usart_rx_sta`. -/
structure RxState where
  rxBuf : ℕ → ℕ
  rxSta : ℕ
  /-- Some store has gone outside the buffer. -/
  past : Bool

/-- `g_usart_rx_buf[i] = v`. -/
def RxState.store (s : RxState) (i v : ℕ) : RxState :=
  if i < usartRecLen then { s with rxBuf := Function.update s.rxBuf i v }
  else { s with past := true }

/-- The receive interrupt of `USART_UX`, with `g_rx_buffer[0] = b`. -/
def halUartRxCpltCallback (b : ℕ) (s : RxState) : RxState :=
  if s.rxSta &&& 0x8000 = 0 then
    if s.rxSta &&& 0x4000 ≠ 0 then
      if b ≠ lf then { s with rxSta := 0 }
      else { s with rxSta := s.rxSta ||| 0x8000 }
    else if b = cr then { s with rxSta := s.rxSta ||| 0x4000 }
    else
      let t := s.store (s.rxSta &&& 0x3FFF) b
      let sta := (s.rxSta + 1) % 2 ^ 16
      if sta > usartRecLen - 1 then { t with rxSta := 0 } else { t with rxSta := sta }
  else s

/-- Hand over a complete line; the result says whether there is one. -/
def usmartGetInputString : Prog RxState Bool := fun s =>
  if s.rxSta &&& 0x8000 ≠ 0 then
    let len := (s.rxSta &&& 0x3fff) % 2 ^ 8
    (true, { s.store len 0 with rxSta := 0 })
  else (false, s)

/-! ## Histories -/

/-- A line and its CR LF have come. -/
def Closed (since : List ℕ) : Prop := [cr, lf] <:+: since

instance (since : List ℕ) : Decidable (Closed since) := inferInstanceAs (Decidable (_ <:+: _))

/-- The bytes since the last reset, after `b` has come.  A CR that no LF follows resets the
receiver, and so does the byte that would fill the buffer. -/
def received (since : List ℕ) (b : ℕ) : List ℕ :=
  if Closed since then since ++ [b]
  else if since.getLast? = some cr then if b = lf then since ++ [b] else []
  else if b ≠ cr ∧ since.length + 1 = usartRecLen then []
  else since ++ [b]

/-- A state of the receiver and the bytes it has received since the last reset: after any
bytes, and any calls of the consumer among them. -/
inductive Reachable : RxState → List ℕ → Prop
  | start {s : RxState} (hsta : s.rxSta = 0) (hpast : s.past = false) : Reachable s []
  | byte {s : RxState} {since : List ℕ} (b : ℕ) (h : Reachable s since) :
      Reachable (halUartRxCpltCallback b s) (received since b)
  | consume {s : RxState} {since : List ℕ} (h : Reachable s since) :
      Reachable (usmartGetInputString.state s)
        (if usmartGetInputString.val s = true then [] else since)

/-! ## The status word -/

theorem sta_open : ∀ c < 200, c &&& 0x8000 = 0 ∧ c &&& 0x4000 = 0 ∧ c &&& 0x3FFF = c ∧
    c ||| 0x4000 = 0x4000 + c := by decide +kernel

theorem sta_cr : ∀ c < 200, (0x4000 + c) &&& 0x8000 = 0 ∧ (0x4000 + c) &&& 0x4000 ≠ 0 ∧
    (0x4000 + c) &&& 0x3FFF = c ∧ (0x4000 + c) ||| 0x8000 = 0xC000 + c := by decide +kernel

theorem sta_done : ∀ c < 200, (0xC000 + c) &&& 0x8000 ≠ 0 ∧ (0xC000 + c) &&& 0x3fff = c := by
  decide +kernel

/-! ## The invariant -/

/-- The buffer begins with `line`. -/
def RxState.Holds (s : RxState) (line : List ℕ) : Prop :=
  (List.range line.length).map s.rxBuf = line

/-- Where the receiver stands in a history. -/
inductive Phase (s : RxState) : List ℕ → Prop
  | filling {line : List ℕ} (hsta : s.rxSta = line.length) (hholds : s.Holds line)
      (hcr : cr ∉ line) (hlen : line.length < usartRecLen) : Phase s line
  | afterCr {line : List ℕ} (hsta : s.rxSta = 0x4000 + line.length) (hholds : s.Holds line)
      (hcr : cr ∉ line) (hlen : line.length < usartRecLen) : Phase s (line ++ [cr])
  | closed {line rest : List ℕ} (hsta : s.rxSta = 0xC000 + line.length) (hholds : s.Holds line)
      (hcr : cr ∉ line) (hlen : line.length < usartRecLen) : Phase s (line ++ cr :: lf :: rest)

theorem not_closed {line : List ℕ} (hcr : cr ∉ line) : ¬ Closed line := fun h =>
  hcr (h.subset (List.mem_cons_self ..))

theorem not_closed_cr {line : List ℕ} (hcr : cr ∉ line) : ¬ Closed (line ++ [cr]) := by
  rintro ⟨before, after, h⟩
  -- the LF would be the last byte of what follows the first CR
  have hmem : lf ∈ line ++ [cr] := by
    rw [← h]
    simp
  rcases List.eq_nil_or_concat after with rfl | ⟨after, x, rfl⟩
  · have hlast := congrArg List.getLast? h
    simp [cr, lf] at hlast
  · have hdrop := congrArg List.dropLast h
    simp only [← List.append_assoc, List.dropLast_concat, List.concat_eq_append] at hdrop
    refine hcr ?_
    rw [← hdrop]
    simp

theorem closed_done (line rest : List ℕ) : Closed (line ++ cr :: lf :: rest) :=
  ⟨line, rest, by simp⟩

/-- A stored byte makes the line longer. -/
theorem RxState.Holds.store {s : RxState} {line : List ℕ} (h : s.Holds line)
    (hlen : line.length < usartRecLen) (b sta : ℕ) :
    RxState.Holds { s.store line.length b with rxSta := sta } (line ++ [b]) := by
  have hbuf : (s.store line.length b).rxBuf = Function.update s.rxBuf line.length b := by
    rw [RxState.store, if_pos hlen]
  rw [RxState.Holds, List.length_append, List.length_singleton, List.range_succ, List.map_append,
    List.map_singleton]
  simp only [hbuf, Function.update_self]
  congr 1
  conv_rhs => rw [← h]
  refine List.map_congr_left fun i hi => ?_
  have hlt := List.mem_range.mp hi
  exact Function.update_of_ne (by omega) _ _

theorem RxState.past_store (s : RxState) {i : ℕ} (v : ℕ) (h : i < usartRecLen) :
    (s.store i v).past = s.past := by
  rw [RxState.store, if_pos h]

/-- One byte: every phase goes over into the phase of the longer history. -/
theorem Phase.byte {s : RxState} {since : List ℕ} (h : Phase s since) (b : ℕ) :
    Phase (halUartRxCpltCallback b s) (received since b) ∧
      (halUartRxCpltCallback b s).past = s.past := by
  cases h with
  | filling hsta hholds hcr hlen =>
      obtain ⟨hdone, hnocr, hcount, hor⟩ := sta_open since.length hlen
      have hlast : since.getLast? ≠ some cr := fun heq => hcr (List.mem_of_getLast? heq)
      rw [received, if_neg (not_closed hcr), if_neg hlast]
      by_cases hb : b = cr
      · subst hb
        have hstate : halUartRxCpltCallback cr s = { s with rxSta := 0x4000 + since.length } := by
          rw [halUartRxCpltCallback, hsta, if_pos hdone, if_neg (not_not.mpr hnocr),
            if_pos rfl, hor]
        rw [hstate, if_neg (fun h => h.1 rfl)]
        exact ⟨.afterCr rfl hholds hcr hlen, rfl⟩
      · have hmod : (since.length + 1) % 2 ^ 16 = since.length + 1 :=
          Nat.mod_eq_of_lt (by rw [usartRecLen] at hlen; omega)
        have hpast := s.past_store b hlen
        by_cases hfull : since.length + 1 = usartRecLen
        · have hstate : halUartRxCpltCallback b s = { s.store since.length b with rxSta := 0 } := by
            rw [halUartRxCpltCallback, hsta, if_pos hdone, if_neg (not_not.mpr hnocr), if_neg hb,
              hcount, hmod]
            exact if_pos (by omega)
          rw [hstate, if_pos ⟨hb, hfull⟩]
          exact ⟨.filling rfl rfl List.not_mem_nil (by decide), hpast⟩
        · have hstate : halUartRxCpltCallback b s =
              { s.store since.length b with rxSta := since.length + 1 } := by
            rw [halUartRxCpltCallback, hsta, if_pos hdone, if_neg (not_not.mpr hnocr), if_neg hb,
              hcount, hmod]
            exact if_neg (by omega)
          rw [hstate, if_neg fun h => hfull h.2]
          refine ⟨.filling (by simp) (hholds.store hlen b _) ?_ ?_, hpast⟩
          · simp only [List.mem_append, List.mem_singleton, not_or]
            exact ⟨hcr, Ne.symm hb⟩
          · rw [List.length_append, List.length_singleton]
            omega
  | @afterCr line hsta hholds hcr hlen =>
      obtain ⟨hdone, hgot, hcount, hor⟩ := sta_cr line.length hlen
      rw [received, if_neg (not_closed_cr hcr), if_pos List.getLast?_concat]
      by_cases hb : b = lf
      · subst hb
        have hstate : halUartRxCpltCallback lf s = { s with rxSta := 0xC000 + line.length } := by
          rw [halUartRxCpltCallback, hsta, if_pos hdone, if_pos hgot, if_neg (not_not.mpr rfl), hor]
        rw [hstate, if_pos rfl, List.append_assoc]
        exact ⟨.closed rfl hholds hcr hlen, rfl⟩
      · have hstate : halUartRxCpltCallback b s = { s with rxSta := 0 } := by
          rw [halUartRxCpltCallback, hsta, if_pos hdone, if_pos hgot, if_pos hb]
        rw [hstate, if_neg hb]
        exact ⟨.filling rfl rfl List.not_mem_nil (by decide), rfl⟩
  | @closed line rest hsta hholds hcr hlen =>
      obtain ⟨hdone, hcount⟩ := sta_done line.length hlen
      have hstate : halUartRxCpltCallback b s = s := by
        rw [halUartRxCpltCallback, hsta, if_neg hdone]
      rw [hstate, received, if_pos (closed_done line rest), List.append_assoc]
      exact ⟨.closed hsta hholds hcr hlen, rfl⟩

/-- The consumer resets the receiver, or finds no line and leaves it alone. -/
theorem Phase.consume {s : RxState} {since : List ℕ} (h : Phase s since) :
    Phase (usmartGetInputString.state s) (if usmartGetInputString.val s = true then [] else since) ∧
      (usmartGetInputString.state s).past = s.past := by
  cases h with
  | filling hsta hholds hcr hlen =>
      obtain ⟨hdone, -, -, -⟩ := sta_open since.length hlen
      have hrun : usmartGetInputString s = (false, s) := by
        rw [usmartGetInputString, hsta, if_neg (not_not.mpr hdone)]
      rw [Prog.state, Prog.val, hrun]
      exact ⟨.filling hsta hholds hcr hlen, rfl⟩
  | @afterCr line hsta hholds hcr hlen =>
      obtain ⟨hdone, -, -, -⟩ := sta_cr line.length hlen
      have hrun : usmartGetInputString s = (false, s) := by
        rw [usmartGetInputString, hsta, if_neg (not_not.mpr hdone)]
      rw [Prog.state, Prog.val, hrun]
      exact ⟨.afterCr hsta hholds hcr hlen, rfl⟩
  | @closed line rest hsta hholds hcr hlen =>
      obtain ⟨hdone, hcount⟩ := sta_done line.length hlen
      have hmod : line.length % 2 ^ 8 = line.length :=
        Nat.mod_eq_of_lt (by rw [usartRecLen] at hlen; omega)
      have hrun : usmartGetInputString s = (true, { s.store line.length 0 with rxSta := 0 }) := by
        rw [usmartGetInputString, hsta, if_pos hdone, hcount, hmod]
      rw [Prog.state, Prog.val, hrun]
      rw [if_pos rfl]
      exact ⟨.filling rfl rfl List.not_mem_nil (by decide), s.past_store 0 hlen⟩

theorem Reachable.phase {s : RxState} {since : List ℕ} (h : Reachable s since) :
    Phase s since ∧ s.past = false := by
  induction h with
  | start hsta hpast => exact ⟨.filling hsta rfl List.not_mem_nil (by decide), hpast⟩
  | byte b _ ih =>
      obtain ⟨hphase, hpast⟩ := ih.1.byte b
      exact ⟨hphase, hpast.trans ih.2⟩
  | consume _ ih =>
      obtain ⟨hphase, hpast⟩ := ih.1.consume
      exact ⟨hphase, hpast.trans ih.2⟩

/-- After any bytes and any calls of the consumer: no store has left the buffer, the count
is below the length of the buffer, and a complete line is what has been received since the
last reset, up to the CR LF that closed it; it holds no CR, and what came after was not
stored. -/
theorem line_receiver {s : RxState} {since : List ℕ} (h : Reachable s since) :
    s.past = false ∧ s.rxSta &&& 0x3FFF ≤ usartRecLen - 1 ∧
      (s.rxSta &&& 0x8000 ≠ 0 →
        let line := (List.range (s.rxSta &&& 0x3FFF)).map s.rxBuf
        cr ∉ line ∧ ∃ ignored, since = line ++ cr :: lf :: ignored) := by
  obtain ⟨hphase, hpast⟩ := h.phase
  refine ⟨hpast, ?_⟩
  cases hphase with
  | filling hsta hholds hcr hlen =>
      obtain ⟨hdone, -, hcount, -⟩ := sta_open since.length hlen
      rw [hsta, hcount]
      exact ⟨Nat.le_pred_of_lt hlen, fun hset => absurd hdone hset⟩
  | @afterCr line hsta hholds hcr hlen =>
      obtain ⟨hdone, -, hcount, -⟩ := sta_cr line.length hlen
      rw [hsta, hcount]
      exact ⟨Nat.le_pred_of_lt hlen, fun hset => absurd hdone hset⟩
  | @closed line rest hsta hholds hcr hlen =>
      obtain ⟨-, hcount⟩ := sta_done line.length hlen
      rw [hsta, hcount]
      refine ⟨Nat.le_pred_of_lt hlen, fun _ => ?_⟩
      rw [hholds]
      exact ⟨hcr, rest, rfl⟩

/-- A line of one byte, closed and not yet consumed, with another byte after it. -/
theorem line_receiver_one :
    ∃ s, Reachable s [0x61, cr, lf, 0x62] ∧ s.past = false ∧
      s.rxSta &&& 0x3FFF ≤ usartRecLen - 1 ∧
      (s.rxSta &&& 0x8000 ≠ 0 →
        let line := (List.range (s.rxSta &&& 0x3FFF)).map s.rxBuf
        cr ∉ line ∧ ∃ ignored, [0x61, cr, lf, 0x62] = line ++ cr :: lf :: ignored) := by
  have hstart : Reachable ⟨fun _ => 0, 0, false⟩ [] := .start rfl rfl
  have h : Reachable _ [0x61, cr, lf, 0x62] :=
    (((hstart.byte 0x61).byte cr).byte lf).byte 0x62
  exact ⟨_, h, line_receiver h⟩

end Apollo.Usart
