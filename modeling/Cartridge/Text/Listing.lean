/-!
# Listings

What a record shows of itself is a list of lines. A part of a record stands two
columns deeper than the line that names it.
-/
namespace Cartridge.Listing

/-- The lines of a part, below the line that names it. -/
def part (title : String) (lines : List String) : List String :=
  title :: lines.map ("  " ++ ·)

/-- A text of at least `width` characters, with spaces after it. -/
def padRight (width : Nat) (s : String) : String :=
  s ++ String.ofList (List.replicate (width - s.length) ' ')

/-- Every line after `indent` spaces and with a line end. -/
def render (indent : Nat) (lines : List String) : String :=
  let margin := String.ofList (List.replicate indent ' ')
  String.join (lines.map fun line => margin ++ line ++ "\n")

end Cartridge.Listing
