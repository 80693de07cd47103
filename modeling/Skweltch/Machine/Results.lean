import Mathlib.Data.Rat.Defs
import Skweltch.Lib.NumText
import Skweltch.Msg

/-!
# Skweltch — the row of a run

`StreamResults::write` (`machine/Results.cpp`). Its `double`s are exact fractions; how a stream
prints one is left open.
-/

namespace Skweltch

open NumText

structure Row where
  group : Int
  iter : Int
  vars : Str
  iterations : Int
  low : Int
  high : Int
  fail : Int
  avg : ℚ
  med : ℚ
deriving DecidableEq

namespace StreamResults

def row (group iter : Int) (vars : Str) (iterations low high fail sum : Int) : Row :=
  { group, iter, vars, iterations, low, high, fail
    avg := (sum : ℚ) / (iterations : ℚ)
    med := low + ((high - low : Int) : ℚ) / 2 }

/-- `StreamResults::write`: the line, without its end. -/
def write (real : ℚ → Str) (r : Row) : Str :=
  decText r.group ++ '\t' :: (decText r.iter ++ '\t' :: (r.vars ++ '\t' :: (decText r.iterations ++
    '\t' :: (decText r.low ++ '\t' :: (decText r.high ++ '\t' :: (decText r.fail ++
    '\t' :: (real r.avg ++ '\t' :: real r.med)))))))

end StreamResults

end Skweltch
