import TagWire.Data.Basic
import TagWire.Number.Shortest
import TagWire.Time.Calendar

/-!
# Short descriptions of data

Messages name a value by a few words: its kind, and its contents or its size.
-/

namespace TagWire

/-- A complex number as it is written in descriptions. -/
def Complex.text (z : Complex) : String := z.re.text ++ z.im.signedText ++ "j"

/-- A value in a few words. Text is measured in bytes. -/
def Data.describe : Data → String
  | none => "none"
  | bool b => "bool " ++ toString b
  | int n => "integer " ++ toString n.toInt
  | word n => "unsigned integer " ++ toString n.toNat
  | bytes bs => "bytes of length " ++ toString bs.length
  | text s => "text of length " ++ toString (Utf8.encode s).length
  | time t => "time " ++ t.text
  | float x => "number " ++ x.text
  | complex z => "complex " ++ z.text
  | value x unit => "value " ++ x.text ++ " [" ++ unit ++ "]"
  | complexValue z unit => "complex value " ++ z.text ++ " [" ++ unit ++ "]"
  | tuple ms => "tuple of " ++ toString ms.length
  | list xs => "list of " ++ toString xs.length
  | array a => "numeric array of " ++ toString a.length
  | valueArray xs unit => "value array of " ++ toString xs.length ++ " [" ++ unit ++ "]"
  | error code _ _ => "error " ++ toString code.toInt

end TagWire
