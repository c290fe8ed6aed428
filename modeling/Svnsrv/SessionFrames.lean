import Svnsrv.Lib.RaSvnDecode
import Svnsrv.SessionMoves
import Svnsrv.SessionBuffers

/-!
# Failure frames

What `sendError` formats into `buffer_`, and what a client reads there. The size that
it gives `snprintf` leaves 63 bytes for what stands around the message.
-/

namespace Svnsrv.Proxy

open CText SubversionSession
set_option autoImplicit false

/-- `( failure ( ( code message "" 0 ) ) )` -/
def failureItem (eid : Nat) (msg : Bytes) : RaSvn.Item :=
  .list [.word (ascii "failure"),
    .list [.list [.number eid, .string msg, .string [], .number 0]]]

/-! ## Lengths -/

theorem length_failureText_le {eid length a b : Nat} (msg : Bytes) (ha : 0 < a) (hb : 0 < b)
    (heid : eid < 10 ^ a) (hlength : length < 10 ^ b) :
    (failureText eid length msg).length ≤ msg.length + (a + b + 28) := by
  have heid' := length_decimal_le ha heid
  have hlength' := length_decimal_le hb hlength
  have hmsg := (List.takeWhile_sublist (l := msg) (· ≠ 0)).length_le
  have hfixed : (ascii "( failure ( ( ").length = 14 ∧ (ascii " 0: 0 ) ) ) ").length = 12 := by
    decide
  simp only [failureText, List.length_append, List.length_singleton]
  omega

/-- A frame that `snprintf` does not cut is in `buffer_` as it is. -/
theorem take_refuses_of_fits (s : SubversionSession) {eid : Nat} {msg : Bytes}
    (hsize : (failureText eid msg.length msg).length ≤ msg.length + 63)
    (hfits : (failureText eid msg.length msg).length < kDefaultBufferSize) :
    ((s.refuses eid msg).mem.get .buffer).take (failureText eid msg.length msg).length =
      failureText eid msg.length msg := by
  generalize htext : failureText eid msg.length msg = text at hsize hfits ⊢
  have hstored : (text ++ [0]).length ≤ Buf.buffer.size := by
    rw [List.length_append]
    exact hfits
  have hwhole := take_get_store (b := .buffer) hstored s.mem
  have hrefuses : (s.refuses eid msg).mem = s.mem.store .buffer (text ++ [0]) := by
    rw [SubversionSession.refuses, htext, List.take_of_length_le hsize]
    rfl
  rw [hrefuses]
  calc ((s.mem.store .buffer (text ++ [0])).get .buffer).take text.length
      = (((s.mem.store .buffer (text ++ [0])).get .buffer).take (text ++ [0]).length).take
          text.length := by
        rw [List.take_take, Nat.min_eq_left (by simp)]
    _ = text := by rw [hwhole, List.take_left]

/-! ## Items -/

theorem text_number (n : Nat) : RaSvn.Text (.number n) (decimal n ++ [space]) :=
  .number (isNumeral_decimal n) RaSvn.isSeparator_space

theorem failureText_text (eid : Nat) {msg : Bytes} (hmsg : 0 ∉ msg) :
    RaSvn.Text (failureItem eid msg) (failureText eid msg.length msg) := by
  have hfields : RaSvn.Texts [.number eid, .string msg, .string [], .number 0]
      ((decimal eid ++ [space]) ++ ((decimal msg.length ++ colon :: (msg ++ [space])) ++
        ((ascii "0" ++ colon :: ([] ++ [space])) ++ ((ascii "0" ++ [space]) ++ [])))) :=
    .cons (text_number eid) (.cons (RaSvn.text_string msg _ (isNumeral_decimal _))
      (.cons (RaSvn.text_string [] _ (by decide)) (.cons (text_number 0) .nil)))
  have hinner := RaSvn.text_list (.cons (RaSvn.text_list hfields) .nil)
  have hword : RaSvn.Text (.word (ascii "failure")) (ascii "failure" ++ [space]) :=
    RaSvn.text_word _ (by decide)
  have hframe := RaSvn.text_list (.cons hword (.cons hinner .nil))
  have hwhole : msg.takeWhile (· ≠ 0) = msg := takeWhile_ne_eq_self_iff.mpr hmsg
  have hspelled : ∀ e n m : Bytes, lparen :: ([space] ++ (((ascii "failure" ++ [space]) ++
      ((lparen :: ([space] ++ (((lparen :: ([space] ++ (((e ++ [space]) ++ ((n ++ colon ::
        (m ++ [space])) ++ ((ascii "0" ++ colon :: ([] ++ [space])) ++
          ((ascii "0" ++ [space]) ++ [])))) ++ rparen :: [space]))) ++ []) ++ rparen :: [space]))) ++
            [])) ++ rparen :: [space])) =
      ascii "( failure ( ( " ++ e ++ [space] ++ n ++ [colon] ++ m ++ ascii " 0: 0 ) ) ) " := by
    intro e n m
    simp only [List.append_assoc, List.cons_append, List.nil_append, List.append_nil]
    rfl
  rw [failureText, hwhole, ← hspelled]
  exact hframe

/-- A frame is formatted whole, handed to the socket whole, and read back as the failure that it
is about, whatever the message is made of. -/
theorem sendError_decodes (s : SubversionSession) {eid : Nat} {msg : Bytes} (heid : eid < 2 ^ 31)
    (hmsg : 0 ∉ msg) (hlength : msg.length + 64 ≤ kDefaultBufferSize) :
    (failureText eid msg.length msg).length ≤ msg.length + 63 ∧
    ∃ size, (s.sendError eid msg msg.length).started =
        [⟨.writeSome .socket .buffer size, .sendErrorDone, [], false⟩] ∧
      size = (failureText eid msg.length msg).length ∧
      ((s.sendError eid msg msg.length).session.mem.get .buffer).take size =
        failureText eid msg.length msg ∧
      RaSvn.decode (((s.sendError eid msg msg.length).session.mem.get .buffer).take size) =
        some (failureItem eid msg, []) := by
  have hsize : (failureText eid msg.length msg).length ≤ msg.length + 43 :=
    length_failureText_le (a := 10) (b := 5) msg (by decide) (by decide) (by omega)
      (by unfold kDefaultBufferSize at hlength; omega)
  have huncut : (failureText eid msg.length msg).length ≤ msg.length + 63 := by omega
  have hwhole := take_refuses_of_fits s huncut (by omega)
  have hread := RaSvn.decode_text (failureText_text eid hmsg) rfl
  refine ⟨huncut, _, rfl, rfl, hwhole, ?_⟩
  change RaSvn.decode (((s.refuses eid msg).mem.get .buffer).take _) = _
  rw [hwhole]
  exact hread

/-- A message that reads like the end of a frame. -/
def framedMessage : Bytes := ascii "x 0: 0 ) ) ) ) 12:( "

theorem sendError_decodes_sample :
    (failureText 210004 framedMessage.length framedMessage).length ≤ framedMessage.length + 63 ∧
    ∃ size, (sampleSession.sendError 210004 framedMessage framedMessage.length).started =
        [⟨.writeSome .socket .buffer size, .sendErrorDone, [], false⟩] ∧
      size = (failureText 210004 framedMessage.length framedMessage).length ∧
      ((sampleSession.sendError 210004 framedMessage framedMessage.length).session.mem.get
        .buffer).take size = failureText 210004 framedMessage.length framedMessage ∧
      RaSvn.decode (((sampleSession.sendError 210004 framedMessage
        framedMessage.length).session.mem.get .buffer).take size) =
          some (failureItem 210004 framedMessage, []) :=
  sendError_decodes sampleSession (by decide) (by decide) (by decide)

end Svnsrv.Proxy
