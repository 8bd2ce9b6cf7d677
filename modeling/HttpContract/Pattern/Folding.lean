import HttpContract.Text.Case

/-!
# Comparing characters without regard to case

Two characters agree when their lower case forms do, or when those forms share an upper case
form. The table lists the lower case letters of the second kind (Unicode 14).
-/

namespace HttpContract

/-- Other lower case letters with the same upper case form. -/
def caseCompanions : Nat → List Nat
  | 105 => [305]
  | 115 => [383]
  | 181 => [956]
  | 305 => [105]
  | 383 => [115]
  | 837 => [953, 8126]
  | 912 => [8147]
  | 944 => [8163]
  | 946 => [976]
  | 949 => [1013]
  | 952 => [977]
  | 953 => [837, 8126]
  | 954 => [1008]
  | 956 => [181]
  | 960 => [982]
  | 961 => [1009]
  | 962 => [963]
  | 963 => [962]
  | 966 => [981]
  | 976 => [946]
  | 977 => [952]
  | 981 => [966]
  | 982 => [960]
  | 1008 => [954]
  | 1009 => [961]
  | 1013 => [949]
  | 1074 => [7296]
  | 1076 => [7297]
  | 1086 => [7298]
  | 1089 => [7299]
  | 1090 => [7300, 7301]
  | 1098 => [7302]
  | 1123 => [7303]
  | 7296 => [1074]
  | 7297 => [1076]
  | 7298 => [1086]
  | 7299 => [1089]
  | 7300 => [1090, 7301]
  | 7301 => [1090, 7300]
  | 7302 => [1098]
  | 7303 => [1123]
  | 7304 => [42571]
  | 7777 => [7835]
  | 7835 => [7777]
  | 8126 => [837, 953]
  | 8147 => [912]
  | 8163 => [944]
  | 42571 => [7304]
  | 64261 => [64262]
  | 64262 => [64261]
  | _ => []

/-- The code of the lower case form; without other scripts only the letters of ASCII change. -/
def foldCode (ascii : Bool) (code : Nat) : Nat :=
  if ascii then (if 65 ≤ code ∧ code ≤ 90 then code + 32 else code)
  else (simpleLower (Char.ofNat code)).toNat

/-- The codes that agree with a folded code, itself first. -/
def foldClass (ascii : Bool) (folded : Nat) : List Nat :=
  if ascii then [folded] else folded :: caseCompanions folded

/-- The codes whose lower case form is the given one. -/
def unfold (ascii : Bool) (folded : Nat) : List Nat :=
  if ascii then (if 97 ≤ folded ∧ folded ≤ 122 then [folded, folded - 32] else [folded])
  else
    folded :: (if folded = 105 then [0x130] else []) ++ lowerRuns.toList.filterMap fun run =>
      let source := (folded : Int) - run.distance
      if 0 ≤ source && run.covers source.toNat then some source.toNat else none

end HttpContract
