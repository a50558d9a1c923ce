import Mathlib.Data.List.Basic

/-!
This module contains the strings of the services, a string is the list of its bytes.
-/

abbrev Bytes := List UInt8
