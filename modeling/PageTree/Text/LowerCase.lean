/-
  PageTree/Text/LowerCase.lean
  ============================
  **Lower case.**

  The full lower-case mapping of Unicode 17.  All characters but two map to one
  character, by the table below; `İ` becomes `i` with a combining dot, and a
  capital sigma becomes `ς` at the end of a word and `σ` elsewhere.
-/
import PageTree.Text.Cased

namespace PageTree.Text

/-- The code points `first`, `first + step`, …, `count` of them, are lowered by
    adding the distance from `first` to `image`. -/
structure LowerRun where
  first : Nat
  step : Nat
  count : Nat
  image : Nat

/-- The lower-case mapping beyond ASCII. -/
def lowerRuns : List LowerRun :=
  [
    ⟨192, 1, 23, 224⟩, ⟨216, 1, 7, 248⟩, ⟨256, 2, 24, 257⟩, ⟨306, 2, 3, 307⟩, ⟨313, 2, 8, 314⟩,
    ⟨330, 2, 23, 331⟩, ⟨376, 1, 1, 255⟩, ⟨377, 2, 3, 378⟩, ⟨385, 1, 1, 595⟩, ⟨386, 2, 2, 387⟩,
    ⟨390, 1, 1, 596⟩, ⟨391, 1, 1, 392⟩, ⟨393, 1, 2, 598⟩, ⟨395, 1, 1, 396⟩, ⟨398, 1, 1, 477⟩,
    ⟨399, 1, 1, 601⟩, ⟨400, 1, 1, 603⟩, ⟨401, 1, 1, 402⟩, ⟨403, 1, 1, 608⟩, ⟨404, 1, 1, 611⟩,
    ⟨406, 1, 1, 617⟩, ⟨407, 1, 1, 616⟩, ⟨408, 1, 1, 409⟩, ⟨412, 1, 1, 623⟩, ⟨413, 1, 1, 626⟩,
    ⟨415, 1, 1, 629⟩, ⟨416, 2, 3, 417⟩, ⟨422, 1, 1, 640⟩, ⟨423, 1, 1, 424⟩, ⟨425, 1, 1, 643⟩,
    ⟨428, 1, 1, 429⟩, ⟨430, 1, 1, 648⟩, ⟨431, 1, 1, 432⟩, ⟨433, 1, 2, 650⟩, ⟨435, 2, 2, 436⟩,
    ⟨439, 1, 1, 658⟩, ⟨440, 1, 1, 441⟩, ⟨444, 1, 1, 445⟩, ⟨452, 1, 1, 454⟩, ⟨453, 1, 1, 454⟩,
    ⟨455, 1, 1, 457⟩, ⟨456, 1, 1, 457⟩, ⟨458, 1, 1, 460⟩, ⟨459, 2, 9, 460⟩, ⟨478, 2, 9, 479⟩,
    ⟨497, 1, 1, 499⟩, ⟨498, 2, 2, 499⟩, ⟨502, 1, 1, 405⟩, ⟨503, 1, 1, 447⟩, ⟨504, 2, 20, 505⟩,
    ⟨544, 1, 1, 414⟩, ⟨546, 2, 9, 547⟩, ⟨570, 1, 1, 11365⟩, ⟨571, 1, 1, 572⟩, ⟨573, 1, 1, 410⟩,
    ⟨574, 1, 1, 11366⟩, ⟨577, 1, 1, 578⟩, ⟨579, 1, 1, 384⟩, ⟨580, 1, 1, 649⟩, ⟨581, 1, 1, 652⟩,
    ⟨582, 2, 5, 583⟩, ⟨880, 2, 2, 881⟩, ⟨886, 1, 1, 887⟩, ⟨895, 1, 1, 1011⟩, ⟨902, 1, 1, 940⟩,
    ⟨904, 1, 3, 941⟩, ⟨908, 1, 1, 972⟩, ⟨910, 1, 2, 973⟩, ⟨913, 1, 17, 945⟩, ⟨931, 1, 9, 963⟩,
    ⟨975, 1, 1, 983⟩, ⟨984, 2, 12, 985⟩, ⟨1012, 1, 1, 952⟩, ⟨1015, 1, 1, 1016⟩,
    ⟨1017, 1, 1, 1010⟩, ⟨1018, 1, 1, 1019⟩, ⟨1021, 1, 3, 891⟩, ⟨1024, 1, 16, 1104⟩,
    ⟨1040, 1, 32, 1072⟩, ⟨1120, 2, 17, 1121⟩, ⟨1162, 2, 27, 1163⟩, ⟨1216, 1, 1, 1231⟩,
    ⟨1217, 2, 7, 1218⟩, ⟨1232, 2, 48, 1233⟩, ⟨1329, 1, 38, 1377⟩, ⟨4256, 1, 38, 11520⟩,
    ⟨4295, 1, 1, 11559⟩, ⟨4301, 1, 1, 11565⟩, ⟨5024, 1, 80, 43888⟩, ⟨5104, 1, 6, 5112⟩,
    ⟨7305, 1, 1, 7306⟩, ⟨7312, 1, 43, 4304⟩, ⟨7357, 1, 3, 4349⟩, ⟨7680, 2, 75, 7681⟩,
    ⟨7838, 1, 1, 223⟩, ⟨7840, 2, 48, 7841⟩, ⟨7944, 1, 8, 7936⟩, ⟨7960, 1, 6, 7952⟩,
    ⟨7976, 1, 8, 7968⟩, ⟨7992, 1, 8, 7984⟩, ⟨8008, 1, 6, 8000⟩, ⟨8025, 2, 4, 8017⟩,
    ⟨8040, 1, 8, 8032⟩, ⟨8072, 1, 8, 8064⟩, ⟨8088, 1, 8, 8080⟩, ⟨8104, 1, 8, 8096⟩,
    ⟨8120, 1, 2, 8112⟩, ⟨8122, 1, 2, 8048⟩, ⟨8124, 1, 1, 8115⟩, ⟨8136, 1, 4, 8050⟩,
    ⟨8140, 1, 1, 8131⟩, ⟨8152, 1, 2, 8144⟩, ⟨8154, 1, 2, 8054⟩, ⟨8168, 1, 2, 8160⟩,
    ⟨8170, 1, 2, 8058⟩, ⟨8172, 1, 1, 8165⟩, ⟨8184, 1, 2, 8056⟩, ⟨8186, 1, 2, 8060⟩,
    ⟨8188, 1, 1, 8179⟩, ⟨8486, 1, 1, 969⟩, ⟨8490, 1, 1, 107⟩, ⟨8491, 1, 1, 229⟩,
    ⟨8498, 1, 1, 8526⟩, ⟨8544, 1, 16, 8560⟩, ⟨8579, 1, 1, 8580⟩, ⟨9398, 1, 26, 9424⟩,
    ⟨11264, 1, 48, 11312⟩, ⟨11360, 1, 1, 11361⟩, ⟨11362, 1, 1, 619⟩, ⟨11363, 1, 1, 7549⟩,
    ⟨11364, 1, 1, 637⟩, ⟨11367, 2, 3, 11368⟩, ⟨11373, 1, 1, 593⟩, ⟨11374, 1, 1, 625⟩,
    ⟨11375, 1, 1, 592⟩, ⟨11376, 1, 1, 594⟩, ⟨11378, 1, 1, 11379⟩, ⟨11381, 1, 1, 11382⟩,
    ⟨11390, 1, 2, 575⟩, ⟨11392, 2, 50, 11393⟩, ⟨11499, 2, 2, 11500⟩, ⟨11506, 1, 1, 11507⟩,
    ⟨42560, 2, 23, 42561⟩, ⟨42624, 2, 14, 42625⟩, ⟨42786, 2, 7, 42787⟩, ⟨42802, 2, 31, 42803⟩,
    ⟨42873, 2, 2, 42874⟩, ⟨42877, 1, 1, 7545⟩, ⟨42878, 2, 5, 42879⟩, ⟨42891, 1, 1, 42892⟩,
    ⟨42893, 1, 1, 613⟩, ⟨42896, 2, 2, 42897⟩, ⟨42902, 2, 10, 42903⟩, ⟨42922, 1, 1, 614⟩,
    ⟨42923, 1, 1, 604⟩, ⟨42924, 1, 1, 609⟩, ⟨42925, 1, 1, 620⟩, ⟨42926, 1, 1, 618⟩,
    ⟨42928, 1, 1, 670⟩, ⟨42929, 1, 1, 647⟩, ⟨42930, 1, 1, 669⟩, ⟨42931, 1, 1, 43859⟩,
    ⟨42932, 2, 8, 42933⟩, ⟨42948, 1, 1, 42900⟩, ⟨42949, 1, 1, 642⟩, ⟨42950, 1, 1, 7566⟩,
    ⟨42951, 2, 2, 42952⟩, ⟨42955, 1, 1, 612⟩, ⟨42956, 2, 8, 42957⟩, ⟨42972, 1, 1, 411⟩,
    ⟨42997, 1, 1, 42998⟩, ⟨65313, 1, 26, 65345⟩, ⟨66560, 1, 40, 66600⟩, ⟨66736, 1, 36, 66776⟩,
    ⟨66928, 1, 11, 66967⟩, ⟨66940, 1, 15, 66979⟩, ⟨66956, 1, 7, 66995⟩, ⟨66964, 1, 2, 67003⟩,
    ⟨68736, 1, 51, 68800⟩, ⟨68944, 1, 22, 68976⟩, ⟨71840, 1, 32, 71872⟩, ⟨93760, 1, 32, 93792⟩,
    ⟨93856, 1, 25, 93883⟩, ⟨125184, 1, 34, 125218⟩]

/-- The image of `n` under one run of the table. -/
def LowerRun.lowered? (run : LowerRun) (n : Nat) : Option Nat :=
  if run.first ≤ n && (n - run.first) % run.step == 0 && (n - run.first) / run.step < run.count then
    some (run.image + (n - run.first))
  else none

/-- The lower-case character of `c`; a character without one is its own. -/
def lowerChar (c : Char) : Char :=
  if c.toNat < 128 then c.toLower
  else ((lowerRuns.findSome? (·.lowered? c.toNat)).map Char.ofNat).getD c

/-- Lowers a text; `before` holds the characters already passed, nearest
    first. -/
def lowerFrom (before : List Char) : List Char → List Char
  | [] => []
  | c :: cs =>
    let image :=
      if c == 'İ' then ['i', '\u0307']
      else if c == 'Σ' then
        if casedAhead before && !casedAhead cs then ['ς'] else ['σ']
      else [lowerChar c]
    image ++ lowerFrom (c :: before) cs

def lower (s : List Char) : List Char := lowerFrom [] s

end PageTree.Text
