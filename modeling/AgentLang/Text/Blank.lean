/-! Blank characters, and texts trimmed, cut into pieces and built of lines. -/

namespace AgentLang.Text

/-- A character is blank when it has the Unicode property White_Space. -/
def isBlank (c : Char) : Bool :=
  let n := c.toNat
  (0x09 ≤ n && n ≤ 0x0D)
  || n == 0x20
  || n == 0x85
  || n == 0xA0
  || n == 0x1680
  || (0x2000 ≤ n && n ≤ 0x200A)
  || n == 0x2028
  || n == 0x2029
  || n == 0x202F
  || n == 0x205F
  || n == 0x3000

/-- Trimming drops the blanks at both ends and keeps those inside. -/
def trim (text : List Char) : List Char :=
  ((text.dropWhile isBlank).reverse.dropWhile isBlank).reverse

/-- Cuts a text at every separator, so it has one piece more than it has separators. -/
def splitAt (separator : Char) : List Char → List (List Char)
  | [] => [[]]
  | c :: rest =>
      if c = separator then
        [] :: splitAt separator rest
      else
        match splitAt separator rest with
        | [] => [[c]]
        | piece :: pieces => (c :: piece) :: pieces

/-- Each line is followed by a line feed, the last one too. -/
def unlines (lines : List String) : String :=
  String.join (lines.map (· ++ "\n"))

end AgentLang.Text
