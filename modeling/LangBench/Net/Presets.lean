import LangBench.Net.Markov
import LangBench.Net.Uniform

/-!
The nets that come with the library.
-/

namespace LangBench.Net

def markov : Net where
  name := Markov.name
  description := "Back-off n-gram model over the previous `order` symbols"
  params := [Markov.orderSpec, Markov.seedSpec]
  State := Markov
  fresh := Markov.fresh
  init params m := (Markov.init params).run.run m
  wantsMore _ := true
  absorb := Markov.absorb
  generate m := .ok m.generate

def uniform : Net where
  name := Uniform.name
  description := "Random strings with length and symbols drawn uniformly, up to max_length"
  params := [Uniform.seedSpec]
  State := Uniform
  fresh := Uniform.fresh
  init params u := (Uniform.init params).run.run u
  wantsMore _ := true
  absorb _ u := .ok u
  generate := Uniform.generate

end LangBench.Net
