import Extraction.Number.Binary64

/-!
Enhancing an image for recognition: shades of grey, at least 1500 pixels of width, local contrast,
gentle denoising, and a threshold between ink and paper. An image that comes out dark is inverted,
so that the paper is light.
-/

namespace Extraction.Enhancement

open Number

inductive Step where
  | grey
  | pixels
  | resize (width : Nat) (height : Int)
  | contrast
  | applyContrast
  | denoise
  | threshold
  | mean
  | invert
  | image
deriving DecidableEq, Repr

/-- Images narrower than this are scaled up to it. -/
def leastWidth : Nat := 1500

/-- Why an image cannot be scaled. -/
inductive Obstacle where
  | noWidth
  | tooLarge
deriving DecidableEq, Repr

/-- The size of the product of a length and a scale; both are rounded to doubles, and so is the
product, of which the fraction is dropped. -/
def scaledLength? (length width : Nat) : Option Nat := do
  let scale ← Magnitude.round leastWidth width
  let l ← Magnitude.round length 1
  let product ←
    Magnitude.round (l.units * scale.units) (Magnitude.unitsPerOne * Magnitude.unitsPerOne)
  some (product.units / Magnitude.unitsPerOne)

/-- The height of an image scaled to the least width. -/
def scaledHeight (width height : Int) : Except Obstacle Int :=
  if width = 0 then .error .noWidth
  else
    match scaledLength? height.natAbs width.natAbs with
    | none => .error .tooLarge
    | some n => .ok (if (width < 0) = (height < 0) then n else -n)

/-- An image of this mean brightness or more counts as light. -/
def lightMean : Nat := 127

def isDark : Binary64 → Bool
  | .finite negative m => negative || m.units < lightMean * Magnitude.unitsPerOne
  | .infinite negative => negative
  | .nan => false

/-- The steps before scaling. -/
def start : List Step := [.grey, .pixels]

/-- The steps after scaling. -/
def finish (mean : Binary64) : List Step :=
  [.contrast, .applyContrast, .denoise, .threshold, .mean] ++
    (if isDark mean then [.invert] else []) ++ [.image]

/-- The steps for an image of a size, whose thresholded form has a mean brightness. Where it cannot
be scaled, no more than the start is made. -/
def steps (width height : Int) (mean : Binary64) : Except Obstacle (List Step) :=
  if leastWidth ≤ width then .ok (start ++ finish mean)
  else (scaledHeight width height).map fun h => start ++ .resize leastWidth h :: finish mean

end Extraction.Enhancement
