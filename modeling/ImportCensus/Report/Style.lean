import ImportCensus.Text.Basic

/-!
# `ImportCensus.Report.Style`: coloured text

A styled text stands between a sequence that switches the style on and one that switches all styles
off. Where the text itself switches the styles off, its own style is switched on again.
-/

set_option autoImplicit false

namespace ImportCensus

/-- The styles of a summary. -/
inductive Style
  | title
  | label
  | secondary
  | strong
  | heading
  | path
  deriving DecidableEq, Repr

namespace Style

/-- The codes of a style: bold, faint or a colour. -/
def codes : Style → Text
  | title => "1;36".toList
  | label => "35".toList
  | secondary => "2".toList
  | strong => "1;37".toList
  | heading => "1".toList
  | path => "1;36".toList

/-- Switches a style on. -/
def on (style : Style) : Text := '\x1b' :: '[' :: style.codes ++ ['m']

/-- Switches all styles off. -/
def off : Text := ['\x1b', '[', '0', 'm']

/-- The text with the style switched on again wherever it is switched off. -/
def resume (style : Style) : Text → Text
  | [] => []
  | '\x1b' :: '[' :: '0' :: 'm' :: rest => off ++ style.on ++ resume style rest
  | c :: rest => c :: resume style rest

/-- A text in a style, or the plain text where colours are not wanted. -/
def paint (colored : Bool) (style : Style) (t : Text) : Text :=
  if colored then style.on ++ style.resume t ++ off else t

end Style

end ImportCensus
