import Lifecycle.Config
import Lifecycle.Text.Quoted

/-! The wording of configuration errors. -/

namespace Lifecycle

def ConfigError.message : ConfigError → String
  | .capacityOutOfRange capacity =>
    s!"Pid space of {capacity} slots is outside [{minPidSpace}, {maxPidSpace}]"
  | .unreadable name value => s!"Invalid value for {name}: " ++ Text.quote value

end Lifecycle
