/-! Bytes and the text they encode in UTF-8, and the lines of bytes that are read
as text one by one. -/
namespace DotQuery.Text

def encode (s : String) : List UInt8 :=
  s.toUTF8.data.toList

/-- The text of the bytes, if they are UTF-8. -/
def decode? (bytes : List UInt8) : Option String :=
  String.fromUTF8? ⟨bytes.toArray⟩

theorem decode?_encode (s : String) : decode? (encode s) = some s := by
  have h : (⟨(encode s).toArray⟩ : ByteArray) = s.toByteArray := by
    simp [encode, String.toUTF8]
  unfold decode?
  rw [h, String.fromUTF8?, dif_pos s.isValidUTF8]
  rfl

def newlineByte : UInt8 := 10

/-- The first line, with its newline if it ends in one, and what follows it. -/
def splitLine (bytes : List UInt8) : List UInt8 × List UInt8 :=
  match bytes.dropWhile (· != newlineByte) with
  | [] => (bytes, [])
  | newline :: rest => (bytes.takeWhile (· != newlineByte) ++ [newline], rest)

theorem splitLine_length_lt {bytes : List UInt8} (h : bytes ≠ []) :
    (splitLine bytes).2.length < bytes.length := by
  have hd := (List.dropWhile_sublist (· != newlineByte) (l := bytes)).length_le
  unfold splitLine
  split
  · exact List.length_pos_iff.2 h
  · rename_i he
    rw [he] at hd
    exact hd

/-- The lines of the bytes, each with its newline; only the last may have none. -/
def splitLines (bytes : List UInt8) : List (List UInt8) :=
  if _h : bytes = [] then []
  else (splitLine bytes).1 :: splitLines (splitLine bytes).2
termination_by bytes.length
decreasing_by exact splitLine_length_lt _h

end DotQuery.Text
