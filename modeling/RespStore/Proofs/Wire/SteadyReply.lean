import RespStore.Proofs.Wire.Steady
import RespStore.Wire.ReplyReader

/-! The reader of replies is steady, however deep the arrays. -/

namespace RespStore.Wire

open Reader

variable (limits : Limits)

theorem bulkHead_steady (n : Int) : (bulkHead limits n).Steady := by
  unfold bulkHead
  split
  · exact steady_give _
  split
  · exact steady_fail _
  · exact (body_steady _).andThen fun data => steady_give _

theorem arrayHead_steady (n : Int) : (arrayHead limits n).Steady := by
  unfold arrayHead
  split
  · exact steady_give _
  split
  · exact steady_fail _
  split
  · exact steady_give _
  · exact steady_give _

theorem headOfLine_steady (mark : UInt8) (l : Bytes) : (headOfLine limits mark l).Steady := by
  unfold headOfLine
  split
  · exact steady_give _
  split
  · exact steady_give _
  split
  · exact (numeral_steady _ _).andThen fun n => steady_give _
  split
  · exact (numeral_steady _ _).andThen (bulkHead_steady limits)
  split
  · exact (numeral_steady _ _).andThen (arrayHead_steady limits)
  · exact steady_fail _

theorem head_steady : (head limits).Steady :=
  steady_cons fun mark => (line_steady limits).andThen (headOfLine_steady limits mark)

theorem replyWithin_steady (frames : List Frame) : Reader.Steady (replyWithin limits frames) := by
  have hh := head_steady limits
  constructor
  · intro b rest r h x
    fun_induction replyWithin limits frames b with
    | case1 => simp at h
    | case2 => simp at h
    | case3 frames b n rest' hd ih =>
      rw [replyWithin_eq, hh.done hd x]
      exact ih h
    | case4 frames b r' rest' hd whole hs =>
      obtain ⟨rfl, rfl⟩ := Progress.done.inj h
      rw [replyWithin_eq, hh.done hd x]
      dsimp only
      rw [hs]
    | case5 frames b r' rest' hd fs hs ih =>
      rw [replyWithin_eq, hh.done hd x]
      dsimp only
      rw [hs]
      exact ih h
  · intro b e h he x
    fun_induction replyWithin limits frames b with
    | case1 => simp at h
    | case2 frames b e' hd =>
      obtain rfl := Progress.fault.inj h
      rw [replyWithin_eq, hh.fault hd he x]
    | case3 frames b n rest' hd ih =>
      rw [replyWithin_eq, hh.done hd x]
      exact ih h
    | case4 => simp at h
    | case5 frames b r' rest' hd fs hs ih =>
      rw [replyWithin_eq, hh.done hd x]
      dsimp only
      rw [hs]
      exact ih h

theorem reply_steady : (reply limits).Steady := replyWithin_steady limits []

end RespStore.Wire
