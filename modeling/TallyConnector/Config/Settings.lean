import Mathlib.Data.Rat.Defs

/-! # Settings

The part of `config/settings.py` that the modelled code reads.
-/

namespace TallyConnector

structure Settings where
  tallyUrl : String := "http://localhost:9000"
  tallyCompany : String := ""
  frappeBaseUrl : String := ""
  retryMaxAttempts : Int := 5
  /-- The value of the float. -/
  retryBackoffBaseSeconds : ℚ := 2

end TallyConnector
