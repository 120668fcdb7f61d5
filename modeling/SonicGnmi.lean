import SonicGnmi.Strings
import SonicGnmi.Md5
import SonicGnmi.Path.Clean
import SonicGnmi.Path.Validate
import SonicGnmi.Auth.ParseMethod
import SonicGnmi.File.Messages
import SonicGnmi.File.Prog
import SonicGnmi.File.Fs
import SonicGnmi.File.Put
import SonicGnmi.File.Atomic
import SonicGnmi.File.Accept
import SonicGnmi.File.Refuse
import SonicGnmi.File.Remove
import SonicGnmi.File.Proxy
import SonicGnmi.File.Transfer
import SonicGnmi.File.Confine
import SonicGnmi.File.EndToEnd
import SonicGnmi.File.Concurrent
import SonicGnmi.File.Links
import SonicGnmi.File.Sequence
import SonicGnmi.Auth.CertAuthorizer
import SonicGnmi.Auth.Middleware
import SonicGnmi.Server.Builder
