import D3D12Capture.CallScope
import D3D12Capture.OpenCalls
import D3D12Capture.CallMatching
import D3D12Capture.ScopeRefinement
import D3D12Capture.ScopeValues
import D3D12Capture.LostExit
import D3D12Capture.CallCapture
