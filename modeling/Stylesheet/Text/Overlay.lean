import Stylesheet.Text.Width

/-!
# Overlays

A row is drawn in layers. A later layer covers what it is drawn over, character by character; a row
that ends before the layer starts is filled up with blanks.
-/
namespace Stylesheet.Text

def spaces (n : Nat) : Text := List.replicate n ' '

/-- Draws a layer over a row, from a column on. -/
def overlay (row : Text) (column : Nat) (layer : Text) : Text :=
  if layer.isEmpty then row
  else
    (row ++ spaces (column - row.length)).take column ++ layer
      ++ row.drop (column + layer.length)

end Stylesheet.Text
