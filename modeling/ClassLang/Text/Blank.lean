/-! # Blank characters

The characters that Unicode treats as white space in running text, the four
information separators included, and the removal of such characters from the
end of a line. The blanks between the tokens of a program are fewer: see
`ClassLang.Scan.Layout`.
-/

namespace ClassLang.Text

/-- White space of running text: the controls from tab to carriage return, the
separators U+001C to U+001F, next line, and every space, line and paragraph
separator of Unicode. -/
def isBlank (c : Char) : Bool :=
  let n := c.toNat
  (0x09 ≤ n && n ≤ 0x0d) || (0x1c ≤ n && n ≤ 0x20) || n == 0x85 || n == 0xa0 || n == 0x1680 ||
    (0x2000 ≤ n && n ≤ 0x200a) || n == 0x2028 || n == 0x2029 || n == 0x202f || n == 0x205f ||
    n == 0x3000

/-- Drop the blanks at the end of a text, and nothing else. -/
def trimEnd (text : List Char) : List Char :=
  (text.reverse.dropWhile isBlank).reverse

end ClassLang.Text
